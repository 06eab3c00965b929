/-
  Proofs/Damage.lean --- looking at a heap whose guards were overwritten.

  WHAT THIS FILE IS FOR.  A client that writes past the end of its payload destroys
  the guard behind it first.  `Overwritten` is what is then left of an arena: other
  values stand where some of the guards were, and nothing else changed.  What an
  operation is sure of in such an arena is what it looks at `Apart` from these places.

  WHAT IS PROVED.  A header that lost its guard cannot be read, and the error shows
  its size and what stands in place of the guard; any other header reads as before.
  A walk ends at the lowest header without a guard, and so does the audit.
-/
import GuardedHeap.Proofs.WellFormed

set_option autoImplicit false

namespace GuardedHeap

/-! ## Places that were hit -/

/-- None of the guards at the offsets in `lost` reaches into the `len` bytes from `off`
on. -/
def Apart (lost : List Nat) (off len : Nat) : Prop := ∀ l ∈ lost, l + 4 ≤ off ∨ off + len ≤ l

theorem Apart.mono {lost : List Nat} {off len off' len' : Nat} (h : Apart lost off len)
    (h1 : off ≤ off') (h2 : off' + len' ≤ off + len) : Apart lost off' len' := by
  intro l hl
  have := h l hl
  omega

/-- Blocks of a row start at the offsets in `lost`. -/
def Listed (lost : List Nat) (bs : List Block) : Prop := ∀ l ∈ lost, ∃ b, (l, b) ∈ places 0 bs

/-- Any other block of a row lies in front of a block or behind it, as a whole. -/
theorem mem_places_cases {pre post : List Block} {b : Block} {x : Nat × Block}
    (h : x ∈ places 0 (pre ++ b :: post)) :
    x.1 + x.2.extent ≤ span pre ∨ x = (span pre, b) ∨ span pre + b.extent ≤ x.1 := by
  obtain ⟨off, c⟩ := x
  rw [places_append, Nat.zero_add, List.mem_append, places, List.mem_cons] at h
  rcases h with h | h | h
  · obtain ⟨xs, ys, rfl, rfl⟩ := mem_places_iff.mp h
    refine Or.inl ?_
    simp only [span_append, span_cons]
    omega
  · exact Or.inr (Or.inl h)
  · obtain ⟨xs, ys, rfl, rfl⟩ := mem_places_iff.mp h
    exact Or.inr (Or.inr (Nat.le_add_right _ _))

section Rows

variable {lost : List Nat} {pre post : List Block} {b : Block}

/-- The bytes of a block that kept its guard were not hit. -/
theorem Listed.apart (h : Listed lost (pre ++ b :: post)) (hkept : span pre ∉ lost) :
    Apart lost (span pre) b.extent := by
  intro l hl
  obtain ⟨c, hc⟩ := h l hl
  have he : c.extent = headerSize + c.size := rfl
  simp only [headerSize] at he
  rcases mem_places_cases hc with hlow | hsame | hhigh
  · simp only at hlow
    omega
  · cases hsame
    exact absurd hl hkept
  · exact Or.inr hhigh

/-- Of any other block the guard is all that was hit. -/
theorem Listed.apart_behind (h : Listed lost (pre ++ b :: post)) :
    Apart lost (span pre + 4) 60 := by
  intro l hl
  obtain ⟨c, hc⟩ := h l hl
  have hb : b.extent = headerSize + b.size := rfl
  have he : c.extent = headerSize + c.size := rfl
  simp only [headerSize] at hb he
  rcases mem_places_cases hc with hlow | hsame | hhigh
  · simp only at hlow
    omega
  · cases hsame
    omega
  · simp only at hhigh
    omega

theorem Listed.lt {bs : List Block} (h : Listed lost bs) {l : Nat} (hl : l ∈ lost) :
    l < span bs := by
  obtain ⟨b, hb⟩ := h l hl
  obtain ⟨xs, ys, rfl, rfl⟩ := mem_places_iff.mp hb
  have hpos := b.extent_pos
  rw [span_append, span_cons]
  omega

theorem Listed.exists_next (h : Listed lost (pre ++ b :: post))
    (hl : span pre + b.extent ∈ lost) : ∃ y rest, post = y :: rest := by
  cases post with
  | nil =>
    have hbelow := h.lt hl
    rw [span_concat] at hbelow
    omega
  | cons y rest => exact ⟨y, rest, rfl⟩

theorem mem_places_splice {mid : List Block} (hspan : span mid = b.extent) {x : Nat × Block}
    (hx : x ∈ places 0 (pre ++ b :: post)) (hne : x.1 ≠ span pre) :
    x ∈ places 0 (pre ++ (mid ++ post)) := by
  rw [places_append, Nat.zero_add, List.mem_append, places, List.mem_cons] at hx
  rw [places_append, places_append, Nat.zero_add, hspan, List.mem_append, List.mem_append]
  rcases hx with hx | rfl | hx
  · exact Or.inl hx
  · exact absurd rfl hne
  · exact Or.inr (Or.inr hx)

theorem Listed.splice {mid : List Block} (h : Listed lost (pre ++ b :: post))
    (hown : span pre ∉ lost) (hspan : span mid = b.extent) :
    Listed lost (pre ++ (mid ++ post)) := fun l hl =>
  let ⟨d, hd⟩ := h l hl
  ⟨d, mem_places_splice hspan hd fun hoff => hown (hoff ▸ hl)⟩

end Rows

namespace Arena

/-! ## Overwritten guards -/

/-- Other values stand where the guards at the offsets in `lost` were.  Nothing else
changed. -/
structure Overwritten (lost : List Nat) (guard : Nat → Nat) (a a' : Arena) : Prop where
  window_eq : a'.window = a.window
  top_eq : a'.top = a.top
  last_eq : a'.last = a.last
  guardAt_eq : ∀ off ∈ lost, Header.guardAt a'.memory off = guard off
  other : ∀ off ∈ lost, guard off ≠ guardWord
  kept : ∀ i, (∀ off ∈ lost, i < off ∨ off + 4 ≤ i) → a'.memory.get i = a.memory.get i

/-- The error for a segment that lost its guard. -/
def corruption (a : Arena) (guard : Nat → Nat) (s : Segment) : HeapError :=
  .corrupted (a.addr s.offset) s.header.size (guard s.offset)

namespace Overwritten

variable {lost : List Nat} {guard : Nat → Nat} {a a' : Arena} {off len : Nat}

theorem agree (h : a.Overwritten lost guard a') (hap : Apart lost off len) :
    Agree a.memory a'.memory off (off + len) := by
  intro i h1 h2
  refine h.kept i fun l hl => ?_
  have := hap l hl
  omega

theorem addr_eq (h : a.Overwritten lost guard a') (off : Nat) : a'.addr off = a.addr off := by
  unfold addr
  rw [h.window_eq]

theorem sizeAt_eq (h : a.Overwritten lost guard a') (hap : Apart lost (off + 4) 60) :
    Header.sizeAt a'.memory off = Header.sizeAt a.memory off :=
  Memory.word_congr fun i h1 h2 => h.agree hap i (by omega) (by omega)

theorem read_eq (h : a.Overwritten lost guard a') (hap : Apart lost off headerSize) :
    a'.read off = a.read off :=
  read_congr h.window_eq h.top_eq fun _ => h.agree hap

/-- A header that was hit cannot be read. -/
theorem read_lost (h : a.Overwritten lost guard a') (hap : Apart lost (off + 4) 60)
    (hl : off ∈ lost) {k : Header} (hr : a.read off = .ok k) :
    a'.read off = .error (.detected (a.corruption guard ⟨off, k⟩)) := by
  obtain ⟨hstop, -, hk⟩ := read_eq_ok hr
  have hother : ¬ Header.guardAt a'.memory off = guardWord := by
    rw [h.guardAt_eq off hl]
    exact h.other off hl
  have hsize : k.size = Header.sizeAt a.memory off := by
    rw [hk]
    rfl
  unfold Arena.read at hr ⊢
  unfold corruption
  rw [h.top_eq, h.sizeAt_eq hap, h.addr_eq, hsize]
  cases hw : Word.add off headerSize with
  | error e =>
    rw [hw] at hr
    cases hr
  | ok stop =>
    obtain ⟨rfl, -⟩ := Word.add_eq_ok.mp hw
    simp only [bind, Except.bind, if_neg (Nat.not_lt.mpr hstop), if_neg hother]
    rw [h.guardAt_eq off hl]
    rfl

theorem successor_eq (h : a.Overwritten lost guard a') (off : Nat) (k : Header) :
    a'.successor off k = a.successor off k := by
  unfold successor brokenLink
  rw [h.top_eq]
  simp only [h.addr_eq]

theorem predecessor_eq (h : a.Overwritten lost guard a') (off : Nat) (k : Header) :
    a'.predecessor off k = a.predecessor off k := by
  unfold predecessor brokenLink
  rw [h.top_eq]
  simp only [h.addr_eq]

theorem step_eq (h : a.Overwritten lost guard a') (hap : Apart lost off headerSize) :
    a'.step off = a.step off := by
  unfold Arena.step
  rw [h.read_eq hap]
  simp only [h.successor_eq]

/-! ## The walk -/

/-- The first segment of a walk, and what a step over it leads to. -/
theorem walkFrom_cons {t : Segment} {ys : List Segment}
    (h : (a.walkFrom off).segments = t :: ys) :
    (a.step off = .ok (t, none) ∧ ys = []) ∨
      ∃ next, a.step off = .ok (t, some next) ∧ ys = (a.walkFrom next).segments := by
  rw [walkFrom] at h
  split at h
  · cases h
  · rename_i s hstep
    cases h
    exact Or.inl ⟨hstep, rfl⟩
  · rename_i s next hstep
    cases h
    exact Or.inr ⟨next, hstep, rfl⟩

/-- A walk visits what lies in front of the lowest segment that was hit, and ends
there. -/
theorem walkFrom_eq (h : a.Overwritten lost guard a') {xs ys : List Segment} {t : Segment}
    (hsegs : (a.walkFrom off).segments = xs ++ t :: ys) (ht : t.offset ∈ lost)
    (hap : Apart lost (t.offset + 4) 60) (hxs : ∀ s ∈ xs, Apart lost s.offset headerSize) :
    a'.walkFrom off = ⟨xs, some (.detected (a.corruption guard t))⟩ := by
  induction xs generalizing off with
  | nil =>
    have hread : t.offset = off ∧ a.read off = .ok t.header := by
      rcases walkFrom_cons hsegs with ⟨hstep, -⟩ | ⟨next, hstep, -⟩
      · exact ⟨(step_eq_ok hstep).1, (step_eq_ok hstep).2.1⟩
      · exact ⟨(step_eq_ok hstep).1, (step_eq_ok hstep).2.1⟩
    obtain ⟨rfl, hr⟩ := hread
    have hstep : a'.step t.offset = .error (.detected (a.corruption guard t)) := by
      unfold Arena.step
      rw [h.read_lost hap ht hr]
      rfl
    rw [walkFrom, hstep]
  | cons s rest ih =>
    rcases walkFrom_cons hsegs with ⟨-, hnil⟩ | ⟨next, hstep, hrest⟩
    · simp at hnil
    · have hs := hxs s List.mem_cons_self
      rw [(step_eq_ok hstep).1] at hs
      rw [walkFrom, h.step_eq hs, hstep]
      simp only [ih hrest.symm fun x hx => hxs x (List.mem_cons_of_mem s hx)]

end Overwritten

theorem exists_changed {a a' : Arena} {off : Nat} {k k' : Header} (hr : a.read off = .ok k)
    (hr' : a'.read off = .ok k') (hne : k ≠ k') : ∃ i, a'.memory.get i ≠ a.memory.get i := by
  obtain ⟨-, -, hk⟩ := read_eq_ok hr
  obtain ⟨-, -, hk'⟩ := read_eq_ok hr'
  by_contra hsame
  refine hne ?_
  rw [hk, hk']
  exact (Header.load_congr fun i _ _ => not_not.mp fun hi => hsame ⟨i, hi⟩).symm

/-! ## A row with guards missing -/

namespace Lists

variable {lost : List Nat} {guard : Nat → Nat} {a a' : Arena} {bs : List Block}

/-- A header of the row reads as before unless its guard is gone. -/
theorem read_overwritten {pre post : List Block} {b : Block} (hl : a.Lists (pre ++ b :: post))
    (ho : a.Overwritten lost guard a') (hrow : Listed lost (pre ++ b :: post)) :
    a'.read (span pre) = if span pre ∈ lost then
        .error (.detected (a.corruption guard ⟨span pre, b.headerIn pre post⟩))
      else .ok (b.headerIn pre post) := by
  by_cases hlost : span pre ∈ lost
  · rw [if_pos hlost]
    exact ho.read_lost hrow.apart_behind hlost hl.read
  · have he : b.extent = headerSize + b.size := rfl
    rw [if_neg hlost, ho.read_eq ((hrow.apart hlost).mono (Nat.le_refl _) (by omega))]
    exact hl.read

variable {xs ys : List Segment} {t : Segment}

/-- A walk ends at the lowest segment that lost its guard. -/
theorem walk_overwritten (hl : a.Lists bs) (ho : a.Overwritten lost guard a')
    (hrow : Listed lost bs) (hsegs : a.walk.segments = xs ++ t :: ys) (ht : t.offset ∈ lost)
    (hxs : ∀ s ∈ xs, s.offset ∉ lost) :
    a'.walk = ⟨xs, some (.detected (a.corruption guard t))⟩ := by
  have hplace : ∀ s ∈ xs ++ t :: ys, ∃ pre b post, bs = pre ++ b :: post ∧
      s = ⟨span pre, b.headerIn pre post⟩ := by
    intro s hs
    rw [← hsegs] at hs
    exact hl.mem_walk_iff.mp hs
  refine ho.walkFrom_eq hsegs ht ?_ fun s hs => ?_
  · obtain ⟨pre, b, post, rfl, rfl⟩ := hplace t (by simp)
    exact hrow.apart_behind
  · have hkept := hxs s hs
    obtain ⟨pre, b, post, rfl, rfl⟩ := hplace s (by simp [hs])
    have he : b.extent = headerSize + b.size := rfl
    exact (hrow.apart hkept).mono (Nat.le_refl _) (by simp only; omega)

end Lists

/-- What is checked and counted as a whole is so up to every segment. -/
theorem tally_of_append {a : Arena} {before : Option Segment} {t : Totals} {xs ys : List Segment}
    {r : Totals × Option Segment} (h : a.tally before t (xs ++ ys) = .ok r) :
    ∃ r', a.tally before t xs = .ok r' := by
  induction xs generalizing before t with
  | nil => exact ⟨(t, before), rfl⟩
  | cons s rest ih =>
    rw [List.cons_append, tally] at h
    rw [tally]
    cases hcheck : a.checkAfter before s with
    | error e =>
      rw [hcheck] at h
      cases h
    | ok u =>
      rw [hcheck] at h
      cases hadd : t.add s with
      | error e =>
        simp only [bind, Except.bind, hadd] at h
        cases h
      | ok t' =>
        simp only [bind, Except.bind, hadd] at h ⊢
        exact ih h

/-- The audit names the lowest segment that lost its guard. -/
theorem Lists.totals_overwritten {lost : List Nat} {guard : Nat → Nat} {a a' : Arena}
    {bs : List Block} {xs ys : List Segment} {t : Segment} (hl : a.Lists bs)
    (hs : Separated bs) (ho : a.Overwritten lost guard a') (hrow : Listed lost bs)
    (hsegs : a.walk.segments = xs ++ t :: ys) (ht : t.offset ∈ lost)
    (hxs : ∀ s ∈ xs, s.offset ∉ lost) :
    a'.totals = .error (.detected (a.corruption guard t)) := by
  have htop := top_lt hl.top_le
  have hall : a'.tally none (.start a') (segments none 0 bs) =
      .ok ((Totals.start a').over bs, (segments none 0 bs).getLast?) := by
    refine tally_row none 0 hs ?_
    rw [← hl.top_eq]
    simp only [Totals.start]
    omega
  rw [show segments none 0 bs = xs ++ t :: ys by rw [← hsegs, hl.walk]] at hall
  obtain ⟨r, hr⟩ := tally_of_append hall
  unfold Arena.totals
  rw [hl.walk_overwritten ho hrow hsegs ht hxs]
  simp only [bind, Except.bind, hr]
  rfl

/-! ## The lowest of the segments that were hit -/

section Lowest

variable {lost : List Nat} {guard : Nat → Nat} {a a' : Arena} {bs bs' : List Block}
  {xs ys xs' ys' : List Segment} {t t' : Segment}

theorem pairwise_walk (a : Arena) : a.walk.segments.Pairwise fun s t => s.offset < t.offset :=
  (walkFrom_offsets a 0).2.imp fun h => by
    simp only [headerSize] at h
    omega

theorem Lists.exists_segment (hl : a.Lists bs) {x : Nat × Block} (hx : x ∈ places 0 bs) :
    ∃ s ∈ a.walk.segments, s.offset = x.1 ∧ s.header.size = x.2.size := by
  obtain ⟨off, b⟩ := x
  obtain ⟨pre, post, rfl, hoff⟩ := mem_places_iff.mp hx
  rw [Nat.zero_add] at hoff
  exact ⟨_, hl.mem_walk_iff.mpr ⟨pre, b, post, rfl, rfl⟩, hoff.symm, rfl⟩

theorem Lists.exists_place (hl : a.Lists bs) {s : Segment} (hs : s ∈ a.walk.segments) :
    ∃ b, (s.offset, b) ∈ places 0 bs ∧ s.header.size = b.size := by
  obtain ⟨pre, b, post, rfl, rfl⟩ := hl.mem_walk_iff.mp hs
  exact ⟨b, mem_places_iff.mpr ⟨pre, post, rfl, (Nat.zero_add _).symm⟩, rfl⟩

/-- Blocks at one offset are one block. -/
theorem places_inj {off : Nat} {b c : Block} (hb : (off, b) ∈ places 0 bs)
    (hc : (off, c) ∈ places 0 bs) : b = c := by
  obtain ⟨pre, post, rfl, hoff⟩ := mem_places_iff.mp hb
  rw [Nat.zero_add] at hoff
  have hpos := c.extent_pos
  have hpos' := b.extent_pos
  rcases mem_places_cases hc with hlow | hsame | hhigh
  · simp only at hlow
    omega
  · cases hsame
    rfl
  · simp only at hhigh
    omega

/-- The lowest of the segments that were hit, and those in front of it. -/
theorem Lists.exists_lowest (hl : a.Lists bs) (hrow : Listed lost bs) (hne : lost ≠ []) :
    ∃ xs t ys, a.walk.segments = xs ++ t :: ys ∧ t.offset ∈ lost ∧
      ∀ s ∈ xs, s.offset ∉ lost := by
  obtain ⟨l, hlost⟩ := List.exists_mem_of_ne_nil lost hne
  obtain ⟨b, hb⟩ := hrow l hlost
  obtain ⟨s, hs, rfl, -⟩ := hl.exists_segment hb
  have hsome : (a.walk.segments.find? fun s => decide (s.offset ∈ lost)).isSome = true :=
    List.find?_isSome.mpr ⟨s, hs, decide_eq_true hlost⟩
  obtain ⟨t, ht⟩ := Option.isSome_iff_exists.mp hsome
  obtain ⟨hmem, xs, ys, hss, hxs⟩ := List.find?_eq_some_iff_append.mp ht
  refine ⟨xs, t, ys, hss, of_decide_eq_true hmem, fun x hx => ?_⟩
  simpa using hxs x hx

/-- Nothing that was hit is lower than the lowest. -/
theorem Lists.lowest_le (hl : a.Lists bs) (hrow : Listed lost bs)
    (hsegs : a.walk.segments = xs ++ t :: ys) (hxs : ∀ s ∈ xs, s.offset ∉ lost) {l : Nat}
    (hlost : l ∈ lost) : t.offset ≤ l := by
  obtain ⟨b, hb⟩ := hrow l hlost
  obtain ⟨s, hs, rfl, -⟩ := hl.exists_segment hb
  have hpair := pairwise_walk a
  rw [hsegs] at hs hpair
  rcases List.mem_append.mp hs with hs | hs
  · exact absurd hlost (hxs s hs)
  · rcases List.mem_cons.mp hs with rfl | hs
    · exact Nat.le_refl _
    · exact Nat.le_of_lt ((List.pairwise_cons.mp (List.pairwise_append.mp hpair).2.1).1 s hs)

/-- The lowest segment that was hit is the same in two rows that both hold what was
hit. -/
theorem Lists.corruption_eq (hl : a.Lists bs) (hl' : a'.Lists bs') (hrow : Listed lost bs)
    (hwindow : a'.window = a.window)
    (hkept : ∀ x ∈ places 0 bs, x.1 ∈ lost → x ∈ places 0 bs')
    (hsegs : a.walk.segments = xs ++ t :: ys) (ht : t.offset ∈ lost)
    (hxs : ∀ s ∈ xs, s.offset ∉ lost) (hsegs' : a'.walk.segments = xs' ++ t' :: ys')
    (ht' : t'.offset ∈ lost) (hxs' : ∀ s ∈ xs', s.offset ∉ lost) :
    a'.corruption guard t' = a.corruption guard t := by
  have hrow' : Listed lost bs' := fun l hlost =>
    let ⟨b, hb⟩ := hrow l hlost
    ⟨b, hkept _ hb hlost⟩
  have hoff : t'.offset = t.offset :=
    Nat.le_antisymm (hl'.lowest_le hrow' hsegs' hxs' ht) (hl.lowest_le hrow hsegs hxs ht')
  obtain ⟨b, hb, hsize⟩ := hl.exists_place (s := t) (by simp [hsegs])
  obtain ⟨c, hc, hsize'⟩ := hl'.exists_place (s := t') (by simp [hsegs'])
  rw [hoff] at hc
  have hsame := places_inj hc (hkept _ hb ht)
  unfold corruption addr
  rw [hwindow, hoff, hsize', hsame, hsize]

/-- An error names a segment that was there before, if what was hit stayed where it was. -/
theorem Lists.exists_corruption_eq (hl : a.Lists bs) (hl' : a'.Lists bs')
    (hrow : Listed lost bs) (hwindow : a'.window = a.window)
    (hkept : ∀ x ∈ places 0 bs, x.1 ∈ lost → x ∈ places 0 bs')
    (ht' : t' ∈ a'.walk.segments) (hlost : t'.offset ∈ lost) :
    ∃ t ∈ a.walk.segments, t.offset ∈ lost ∧ a'.corruption guard t' = a.corruption guard t := by
  obtain ⟨c, hc, hsize'⟩ := hl'.exists_place ht'
  obtain ⟨b, hb⟩ := hrow _ hlost
  obtain ⟨t, ht, hoff, hsize⟩ := hl.exists_segment hb
  have hsame := places_inj hc (hkept _ hb hlost)
  refine ⟨t, ht, hoff ▸ hlost, ?_⟩
  unfold corruption addr
  rw [hwindow, hoff, hsize', hsame, hsize]

end Lowest

end Arena

end GuardedHeap
