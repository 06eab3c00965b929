/-
  Proofs/Order.lean --- the normal form of a row of blocks.

  WHAT THIS FILE IS FOR.  Between calls a row is in order: no two free blocks
  are adjacent, free blocks are clear, and a free block at the end starts below
  the reserved minimum and reaches no farther than it has to.  This is the order
  of rows alone; no memory occurs here.  What clients hold are the live blocks of
  a row with their offsets.

  WHAT IS PROVED.  How order passes between a row and its parts, and that
  merging a free block with its neighbors and trimming the end of a row restore
  it.  Neither changes the live blocks.
-/
import GuardedHeap.Proofs.Tiling.Edit

set_option autoImplicit false

namespace GuardedHeap

/-! ## Live blocks -/

/-- The used blocks of a row that starts at an offset, with their offsets. -/
def live (off : Nat) (bs : List Block) : List (Nat × Block) :=
  (places off bs).filter fun x => x.2.used

@[simp] theorem live_nil (off : Nat) : live off [] = [] := rfl

theorem live_cons_used {b : Block} (hb : b.used = true) (off : Nat) (rest : List Block) :
    live off (b :: rest) = (off, b) :: live (off + b.extent) rest := by
  unfold live
  rw [places]
  exact List.filter_cons_of_pos hb

theorem live_cons_free {b : Block} (hb : b.used = false) (off : Nat) (rest : List Block) :
    live off (b :: rest) = live (off + b.extent) rest := by
  unfold live
  rw [places]
  exact List.filter_cons_of_neg (by simp [hb])

theorem live_append (off : Nat) (xs ys : List Block) :
    live off (xs ++ ys) = live off xs ++ live (off + span xs) ys := by
  unfold live
  rw [places_append, List.filter_append]

theorem mem_live_iff {off place : Nat} {b : Block} {bs : List Block} :
    (place, b) ∈ live off bs ↔
      b.used = true ∧ ∃ pre post, bs = pre ++ b :: post ∧ place = off + span pre := by
  unfold live
  rw [List.mem_filter, mem_places_iff, and_comm]

/-- Live blocks come in the order of their offsets, and no two overlap. -/
theorem pairwise_live (off : Nat) (bs : List Block) :
    (live off bs).Pairwise fun x y => x.1 + x.2.extent ≤ y.1 := by
  induction bs generalizing off with
  | nil => exact List.Pairwise.nil
  | cons b rest ih =>
    cases hb : b.used with
    | false =>
      rw [live_cons_free hb]
      exact ih (off + b.extent)
    | true =>
      rw [live_cons_used hb]
      refine List.Pairwise.cons ?_ (ih (off + b.extent))
      intro y hy
      obtain ⟨place, c⟩ := y
      obtain ⟨-, pre, post, -, rfl⟩ := mem_live_iff.mp hy
      exact Nat.le_add_right _ _

/-! ## Separation -/

theorem pairwise_live_lt (bs : List Block) : (live 0 bs).Pairwise fun x y => x.1 < y.1 := by
  refine (pairwise_live 0 bs).imp fun {x y} hle => ?_
  have hpos := x.2.extent_pos
  omega

theorem fst_ne_of_perm {bs : List Block} {x : Nat × Block} {xs : List (Nat × Block)}
    (h : (x :: xs).Perm (live 0 bs)) {y : Nat × Block} (hy : y ∈ xs) : y.1 ≠ x.1 := by
  have hdistinct := (pairwise_live_lt bs).imp fun {x y} hlt => Nat.ne_of_lt hlt
  have hpair := hdistinct.perm h.symm fun hne heq => hne heq.symm
  exact fun heq => (List.pairwise_cons.mp hpair).1 y hy heq.symm

/-- The last block of a row, if there is one, is used. -/
def EndsUsed (bs : List Block) : Prop := ∀ x ∈ bs.getLast?, x.used = true

/-- The first block of a row, if there is one, is used. -/
def StartsUsed (bs : List Block) : Prop := ∀ x ∈ bs.head?, x.used = true

@[simp] theorem endsUsed_nil : EndsUsed [] := fun _ h => nomatch h

@[simp] theorem startsUsed_nil : StartsUsed [] := fun _ h => nomatch h

@[simp] theorem endsUsed_concat (xs : List Block) (x : Block) :
    EndsUsed (xs ++ [x]) ↔ x.used = true := by
  unfold EndsUsed
  rw [List.getLast?_concat]
  exact ⟨fun h => h x rfl, fun h y hy => by cases hy; exact h⟩

@[simp] theorem startsUsed_cons (x : Block) (xs : List Block) :
    StartsUsed (x :: xs) ↔ x.used = true := by
  unfold StartsUsed
  rw [List.head?_cons]
  exact ⟨fun h => h x rfl, fun h y hy => by cases hy; exact h⟩

theorem StartsUsed.clear {bs : List Block} (h : StartsUsed bs) : ∀ x ∈ bs.head?, x.Clear := by
  intro x hx hfree
  rw [h x hx] at hfree
  cases hfree

theorem separated_free {pre post : List Block} {c : Block} (hc : c.used = false) :
    Separated (pre ++ c :: post) ↔
      (Separated pre ∧ EndsUsed pre) ∧ Separated post ∧ StartsUsed post := by
  unfold Separated
  rw [List.isChain_append, List.isChain_cons]
  simp only [List.head?_cons, Option.mem_def, Option.some.injEq, forall_eq', hc, Bool.false_eq_true,
    or_false, false_or]
  unfold EndsUsed StartsUsed
  simp only [Option.mem_def]
  tauto

theorem separated_used {pre post : List Block} {c : Block} (hc : c.used = true) :
    Separated (pre ++ c :: post) ↔ Separated pre ∧ Separated post := by
  unfold Separated
  rw [List.isChain_append, List.isChain_cons]
  simp [hc]

/-! ## Order -/

/-- A free block at the end of a row starts below the reserved minimum `floor`,
and the row ends there or with the header of that block. -/
def Settled (floor : Nat) (bs : List Block) : Prop :=
  ∀ pre b, bs = pre ++ [b] → b.used = false →
    span pre < floor ∧ span bs = max floor (span pre + headerSize)

/-- A row without adjacent free blocks in which everything free is clear. -/
structure Tidy (bs : List Block) : Prop where
  separated : Separated bs
  clear : ∀ b ∈ bs, b.Clear

/-- A row in normal form. -/
structure Orderly (floor : Nat) (bs : List Block) : Prop extends Tidy bs where
  settled : Settled floor bs

@[simp] theorem tidy_nil : Tidy [] := ⟨List.IsChain.nil, fun _ h => nomatch h⟩

theorem forall_mem_clear {pre post : List Block} {c : Block} :
    (∀ x ∈ pre ++ c :: post, x.Clear) ↔
      (∀ x ∈ pre, x.Clear) ∧ c.Clear ∧ ∀ x ∈ post, x.Clear := by
  rw [List.forall_mem_append, List.forall_mem_cons]

/-- A row with a used block in it is tidy if both sides are. -/
theorem tidy_used {pre post : List Block} {c : Block} (hc : c.used = true) :
    Tidy (pre ++ c :: post) ↔ Tidy pre ∧ Tidy post := by
  have hclear : c.Clear := by
    intro hfree
    rw [hc] at hfree
    cases hfree
  constructor
  · rintro ⟨hs, hall⟩
    obtain ⟨hpre, hpost⟩ := (separated_used hc).mp hs
    obtain ⟨hp, -, hq⟩ := forall_mem_clear.mp hall
    exact ⟨⟨hpre, hp⟩, hpost, hq⟩
  · rintro ⟨⟨hpre, hp⟩, hpost, hq⟩
    exact ⟨(separated_used hc).mpr ⟨hpre, hpost⟩, forall_mem_clear.mpr ⟨hp, hclear, hq⟩⟩

/-- A row with a free block in it is tidy if both sides are, with used blocks beside a
clear one. -/
theorem tidy_free {pre post : List Block} {c : Block} (hc : c.used = false) :
    Tidy (pre ++ c :: post) ↔
      (Tidy pre ∧ EndsUsed pre) ∧ c.Clear ∧ Tidy post ∧ StartsUsed post := by
  constructor
  · rintro ⟨hs, hall⟩
    obtain ⟨⟨hpre, hend⟩, hpost, hstart⟩ := (separated_free hc).mp hs
    obtain ⟨hp, hclear, hq⟩ := forall_mem_clear.mp hall
    exact ⟨⟨⟨hpre, hp⟩, hend⟩, hclear, ⟨hpost, hq⟩, hstart⟩
  · rintro ⟨⟨⟨hpre, hp⟩, hend⟩, hclear, ⟨hpost, hq⟩, hstart⟩
    exact ⟨(separated_free hc).mpr ⟨⟨hpre, hend⟩, hpost, hstart⟩,
      forall_mem_clear.mpr ⟨hp, hclear, hq⟩⟩

/-- The end of a row decides whether it is settled. -/
theorem Settled.of_suffix {floor : Nat} {xs post back : List Block}
    (h : Settled floor (xs ++ post)) (ys : List Block) (hback : back <:+ post) (hne : back ≠ [])
    (hspan : span (ys ++ back) = span (xs ++ post)) : Settled floor (ys ++ back) := by
  obtain ⟨mid, rfl⟩ := hback
  obtain ⟨body, last, rfl⟩ : ∃ body last, back = body ++ [last] :=
    ⟨_, _, (List.dropLast_append_getLast hne).symm⟩
  intro pre b hb hu
  rw [← List.append_assoc] at hb
  obtain ⟨rfl, hlast⟩ := List.append_inj' hb rfl
  cases hlast
  have hx := h (xs ++ (mid ++ body)) last (by simp) hu
  simp only [span_append, span_cons, span_nil] at hspan hx ⊢
  have hsame : span ys + span body = span xs + (span mid + span body) := by omega
  omega

theorem Settled.replace {floor : Nat} {pre post front back : List Block} {b c : Block}
    (h : Settled floor (pre ++ b :: post)) (hback : back <:+ post) (hne : back ≠ [])
    (hspan : span (front ++ c :: back) = span (pre ++ b :: post)) :
    Settled floor (front ++ c :: back) := by
  rw [List.append_cons pre] at h hspan
  rw [List.append_cons front] at hspan ⊢
  exact h.of_suffix _ hback hne hspan

theorem settled_of_endsUsed {floor : Nat} {bs : List Block} (h : EndsUsed bs) :
    Settled floor bs := by
  rintro pre b rfl hu
  rw [endsUsed_concat, hu] at h
  cases h

/-! ## Merging -/

theorem Block.clear_fuse {x y : Block} (hx : x.Clear) (hy : y.used = false → y.Clear)
    (hu : x.used = y.used) : (x.fuse y).Clear := by
  intro hfree i hi
  have hxu : x.used = false := hfree
  simp only [Block.fuse] at hi ⊢
  split
  · exact hx hxu i (by assumption)
  · split
    · rfl
    · exact hy (hu ▸ hxu) (hu ▸ hxu) _ (by omega)

/-- A row in front of a merged block, without its last block if that was merged. -/
def MergedBack (pre front : List Block) : Prop :=
  front = pre ∨ ∃ p, pre = front ++ [p] ∧ p.used = false

/-- A row behind a merged block, without its first block if that was merged. -/
def MergedAhead (post back : List Block) : Prop :=
  back = post ∨ ∃ y, post = y :: back ∧ y.used = false

theorem MergedAhead.suffix {post back : List Block} (h : MergedAhead post back) :
    back <:+ post := by
  rcases h with rfl | ⟨y, rfl, -⟩
  · exact List.suffix_rfl
  · exact List.suffix_cons y back

/-- A free block merged with what stands in front of it stands behind a used
block. -/
theorem exists_mergeBack {pre : List Block} {x : Block} (h : Tidy pre) (hx : x.used = false) :
    ∃ front y, mergeBack pre x = (front, y) ∧ y.used = false ∧
      (Tidy front ∧ EndsUsed front) ∧ span front + y.extent = span pre + x.extent ∧
      live 0 front = live 0 pre ∧ MergedBack pre front := by
  rcases List.eq_nil_or_concat pre with rfl | ⟨front, p, rfl⟩
  · exact ⟨[], x, rfl, hx, ⟨h, endsUsed_nil⟩, rfl, rfl, Or.inl rfl⟩
  · rw [List.concat_eq_append] at *
    rw [mergeBack_concat]
    cases hp : p.used with
    | true =>
      refine ⟨front ++ [p], x, rfl, hx, ⟨h, ?_⟩, rfl, rfl, Or.inl rfl⟩
      rwa [endsUsed_concat]
    | false =>
      refine ⟨front, p.fuse x, rfl, hp, ((tidy_free hp).mp h).1, ?_, ?_, Or.inr ⟨p, rfl, hp⟩⟩
      · rw [Block.extent_fuse, span_append, span_cons, span_nil]
        omega
      · rw [live_append, live_cons_free hp, live_nil, List.append_nil]

/-- A free block merged with what follows it stands in front of a used block. -/
theorem exists_mergeAhead {post : List Block} {x : Block} (h : Tidy post) (hx : x.used = false) :
    ∃ y back, mergeAhead x post = y :: back ∧ y.used = false ∧
      (Tidy back ∧ StartsUsed back) ∧
      (∀ off, live (off + y.extent) back = live (off + x.extent) post) ∧ MergedAhead post back ∧
      (x.Clear → y.Clear) := by
  cases post with
  | nil =>
    exact ⟨x, [], rfl, hx, ⟨h, startsUsed_nil⟩, fun _ => rfl, Or.inl rfl, fun hc => hc⟩
  | cons p rest =>
    cases hp : p.used with
    | true =>
      refine ⟨x, p :: rest, if_pos hp, hx, ⟨h, ?_⟩, fun _ => rfl, Or.inl rfl, fun hc => hc⟩
      rwa [startsUsed_cons]
    | false =>
      have hnil : Tidy ([] ++ p :: rest) := h
      obtain ⟨-, hclear, hrest⟩ := (tidy_free hp).mp hnil
      refine ⟨x.fuse p, rest, if_neg (by simp [hp]), hx, hrest, ?_, Or.inr ⟨p, rfl, hp⟩, ?_⟩
      · intro off
        rw [live_cons_free hp, Block.extent_fuse, Nat.add_assoc]
      · intro hc
        exact Block.clear_fuse hc (fun _ => hclear) (hx.trans hp.symm)

/-- A used block of an ordered row may be replaced by another of the same
extent. -/
theorem Orderly.replace_used {floor : Nat} {pre post : List Block} {b d : Block}
    (h : Orderly floor (pre ++ b :: post)) (hb : b.used = true) (hd : d.used = true)
    (he : d.extent = b.extent) :
    Orderly floor (pre ++ d :: post) ∧
      live 0 (pre ++ d :: post) =
        live 0 pre ++ (span pre, d) :: live (span pre + b.extent) post := by
  refine ⟨⟨(tidy_used hd).mpr ((tidy_used hb).mp h.toTidy), ?_⟩, ?_⟩
  · by_cases hpost : post = []
    · subst hpost
      exact settled_of_endsUsed ((endsUsed_concat pre d).mpr hd)
    · exact h.settled.replace List.suffix_rfl hpost (by simp [he])
  · rw [live_append, live_cons_used hd, Nat.zero_add, he]

/-! ## Taking -/

theorem Block.leftover_cases (b : Block) (size : Nat) :
    (headerSize < b.size - size ∧ b.leftover size = [b.remnant size]) ∨
      (¬ headerSize < b.size - size ∧ b.leftover size = []) := by
  unfold Block.leftover
  by_cases h : headerSize < b.size - size
  · exact Or.inl ⟨h, if_pos h⟩
  · exact Or.inr ⟨h, if_neg h⟩

theorem live_leftover (b : Block) (size off : Nat) (post : List Block) :
    live off (b.leftover size ++ post) = live (off + span (b.leftover size)) post := by
  rcases b.leftover_cases size with ⟨-, h⟩ | ⟨-, h⟩
  · rw [h, List.singleton_append, live_cons_free rfl, span_cons, span_nil, Nat.add_zero]
  · rw [h]
    rfl

theorem Block.clear_remnant {b : Block} {size : Nat}
    (h : ∀ i, size ≤ i → i < b.size → b.bytes i = 0) : (b.remnant size).Clear := by
  intro _ i hi
  simp only [Block.remnant] at hi ⊢
  exact h _ (by omega) (by omega)

/-- A block that was free is taken into use: the live blocks gain the new one. -/
theorem orderly_taken {floor size : Nat} {pre post : List Block} {c d : Block}
    (ht : Tidy (pre ++ c :: post)) (hc : c.used = false) (hle : size ≤ c.size)
    (hs : c.leftover size ++ post ≠ [] → Settled floor (pre ++ c :: post))
    (hd : d.used = true) (hde : d.extent = (c.taken size).extent) :
    Orderly floor (pre ++ d :: (c.leftover size ++ post)) ∧
      live 0 (pre ++ d :: (c.leftover size ++ post)) =
        live 0 pre ++ (span pre, d) :: live (span pre + c.extent) post ∧
      live 0 (pre ++ c :: post) = live 0 pre ++ live (span pre + c.extent) post := by
  obtain ⟨⟨hpre, -⟩, hclear, hpost, hstart⟩ := (tidy_free hc).mp ht
  have hspan := c.extent_taken hle
  have hbehind : Tidy (c.leftover size ++ post) := by
    rcases c.leftover_cases size with ⟨-, h⟩ | ⟨-, h⟩
    · have hremnant : (c.remnant size).Clear := Block.clear_remnant fun i _ hi => hclear hc i hi
      have hnil : Tidy ([] ++ c.remnant size :: post) :=
        (tidy_free rfl).mpr ⟨⟨tidy_nil, endsUsed_nil⟩, hremnant, hpost, hstart⟩
      rw [h]
      exact hnil
    · rw [h]
      exact hpost
  refine ⟨⟨(tidy_used hd).mpr ⟨hpre, hbehind⟩, ?_⟩, ?_, ?_⟩
  · by_cases hne : post = []
    · subst hne
      rcases c.leftover_cases size with ⟨hsplit, h⟩ | ⟨-, h⟩
      · -- the remnant ends where the block did
        intro xs x hx _
        have hold := hs (by simp [h]) pre c rfl hc
        have hrow : pre ++ d :: (c.leftover size ++ []) = (pre ++ [d]) ++ [c.remnant size] := by
          simp [h]
        rw [hrow] at hx ⊢
        obtain ⟨rfl, -⟩ := List.append_inj' hx rfl
        have hce : c.extent = headerSize + c.size := rfl
        have hre := Block.extent_remnant_of_split hsplit
        have hte := Block.extent_taken_of_split hsplit
        simp only [span_append, span_cons, span_nil] at hold ⊢
        omega
      · rw [h]
        exact settled_of_endsUsed ((endsUsed_concat pre d).mpr hd)
    · have hsettled := hs (by simp [hne])
      have hrow : pre ++ d :: (c.leftover size ++ post) =
          (pre ++ d :: c.leftover size) ++ post := by simp
      have hold : pre ++ c :: post = (pre ++ [c]) ++ post := by simp
      rw [hrow]
      rw [hold] at hsettled
      refine hsettled.of_suffix _ List.suffix_rfl hne ?_
      simp only [span_append, span_cons, span_nil]
      omega
  · rw [live_append, live_cons_used hd, live_leftover, Nat.zero_add, Nat.add_assoc, hde, hspan]
  · rw [live_append, live_cons_free hc, Nat.zero_add]

/-! ## Trimming -/

/-- A row with a free block `c` in it, after the end was trimmed: when the block
is the last, it goes if it starts at or above the reserved minimum, and it ends
there if it straddles it. -/
def trimmed (floor : Nat) (pre : List Block) (c : Block) (post : List Block) : List Block :=
  if post ≠ [] then pre ++ c :: post
  else if floor ≤ span pre then pre
  else if floor < span pre + c.extent then
    pre ++ [{ c with size := floor - (span pre + headerSize) }]
  else pre ++ [c]

theorem Block.Clear.cut {c : Block} {size : Nat} (h : c.Clear) (hle : size ≤ c.size) :
    ({ c with size := size } : Block).Clear :=
  fun hc i hi => h hc i (Nat.lt_of_lt_of_le hi hle)

/-- Trimming puts a tidy row in order and keeps its live blocks. -/
theorem orderly_trimmed {floor : Nat} {pre post : List Block} {c : Block}
    (ht : Tidy (pre ++ c :: post)) (hc : c.used = false)
    (hs : post ≠ [] → Settled floor (pre ++ c :: post))
    (hfloor : floor ≤ span (pre ++ c :: post)) :
    Orderly floor (trimmed floor pre c post) ∧
      live 0 (trimmed floor pre c post) = live 0 (pre ++ c :: post) := by
  unfold trimmed
  by_cases hpost : post = []
  · subst hpost
    obtain ⟨⟨hpre, hend⟩, hclear, -⟩ := (tidy_free hc).mp ht
    have hlive : ∀ d : Block, d.used = false → live 0 (pre ++ [d]) = live 0 pre := by
      intro d hd
      rw [live_append, live_cons_free hd, live_nil, List.append_nil]
    have he : c.extent = headerSize + c.size := rfl
    rw [span_concat] at hfloor
    rw [if_neg (fun h => h rfl), hlive c hc]
    by_cases hremove : floor ≤ span pre
    · -- nothing of the block is left
      rw [if_pos hremove]
      exact ⟨⟨hpre, settled_of_endsUsed hend⟩, rfl⟩
    · rw [if_neg hremove]
      have hkeep : ∀ d : Block, d.used = false → d.Clear →
          span pre + d.extent = max floor (span pre + headerSize) →
          Orderly floor (pre ++ [d]) := by
        intro d hd hdc hds
        refine ⟨(tidy_free hd).mpr ⟨⟨hpre, hend⟩, hdc, tidy_nil, startsUsed_nil⟩, ?_⟩
        intro xs x hx _
        obtain ⟨rfl, -⟩ := List.append_inj' hx rfl
        rw [span_append, span_cons, span_nil]
        exact ⟨by omega, hds⟩
      by_cases hcut : floor < span pre + c.extent
      · rw [if_pos hcut]
        have hd := hclear.cut (show floor - (span pre + headerSize) ≤ c.size by omega)
        have hds : span pre + ({ c with size := floor - (span pre + headerSize) } : Block).extent =
            max floor (span pre + headerSize) := by
          simp only [Block.extent]
          omega
        exact ⟨hkeep _ hc hd hds, hlive _ hc⟩
      · rw [if_neg hcut]
        exact ⟨hkeep c hc hclear (by omega), hlive c hc⟩
  · rw [if_pos hpost]
    exact ⟨⟨ht, hs hpost⟩, rfl⟩

end GuardedHeap
