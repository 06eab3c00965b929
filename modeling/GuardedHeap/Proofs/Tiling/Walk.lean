/-
  Proofs/Tiling/Walk.lean --- looking at a row of blocks.

  WHAT THIS FILE IS FOR.  What the operations that only look answer on an arena
  that holds a row of blocks: reading a header, following a link, walking, the
  first-fit search and the audit.

  WHAT IS PROVED.  All of them succeed, and each answer is a function of the row:
  the walk visits its blocks in order, the search finds its first block that
  fits, and the audit returns its sums.  The address of a payload leads back to its
  block.
-/
import GuardedHeap.Proofs.Tiling
import Mathlib.Algebra.GroupWithZero.Nat
import Mathlib.Data.List.Chain

set_option autoImplicit false

namespace GuardedHeap

/-! ## Segments of a row -/

/-- The header of a block in its row. -/
def Block.headerIn (pre : List Block) (b : Block) (post : List Block) : Header :=
  b.header (lastLink none 0 pre) (firstLink (span pre + b.extent) post none)

@[simp] theorem Block.headerIn_used (pre post : List Block) (b : Block) :
    (b.headerIn pre post).used = b.used := rfl

@[simp] theorem Block.headerIn_size (pre post : List Block) (b : Block) :
    (b.headerIn pre post).size = b.size := rfl

/-- The segments of a row that starts at an offset, with `prev` in front. -/
def segments : Option Nat → Nat → List Block → List Segment
  | _, _, [] => []
  | prev, off, b :: rest =>
    ⟨off, b.header prev (firstLink (off + b.extent) rest none)⟩ ::
      segments (some off) (off + b.extent) rest

theorem segments_append (prev : Option Nat) (off : Nat) (xs : List Block) (y : Block)
    (ys : List Block) :
    ∃ front, segments prev off (xs ++ y :: ys) =
      front ++ segments (lastLink prev off xs) (off + span xs) (y :: ys) := by
  induction xs generalizing prev off with
  | nil => exact ⟨[], rfl⟩
  | cons x xs ih =>
    obtain ⟨front, hf⟩ := ih (some off) (off + x.extent)
    refine ⟨⟨off, x.header prev (firstLink (off + x.extent) (xs ++ y :: ys) none)⟩ :: front, ?_⟩
    rw [List.cons_append, segments, hf, lastLink_cons, span_cons, Nat.add_assoc,
      List.cons_append]

theorem getLast?_segments_concat (prev : Option Nat) (off : Nat) (xs : List Block) (x : Block) :
    (segments prev off (xs ++ [x])).getLast? =
      some ⟨off + span xs, x.header (lastLink prev off xs) none⟩ := by
  obtain ⟨front, hf⟩ := segments_append prev off xs x []
  rw [hf, List.getLast?_append]
  rfl

/-- Every segment of a row is one of its blocks. -/
theorem mem_segments_iff {prev : Option Nat} {off : Nat} {bs : List Block} {s : Segment} :
    s ∈ segments prev off bs ↔ ∃ pre b post, bs = pre ++ b :: post ∧
      s = ⟨off + span pre, b.header (lastLink prev off pre)
        (firstLink (off + span pre + b.extent) post none)⟩ := by
  induction bs generalizing prev off with
  | nil => simp [segments]
  | cons x xs ih =>
    rw [segments, List.mem_cons, ih]
    constructor
    · rintro (rfl | ⟨pre, b, post, rfl, rfl⟩)
      · exact ⟨[], x, xs, rfl, rfl⟩
      · refine ⟨x :: pre, b, post, rfl, ?_⟩
        rw [lastLink_cons, span_cons, Nat.add_assoc off]
    · rintro ⟨pre, b, post, h, rfl⟩
      cases pre with
      | nil =>
        cases h
        exact Or.inl rfl
      | cons y ys =>
        cases h
        refine Or.inr ⟨ys, b, post, rfl, ?_⟩
        rw [lastLink_cons, span_cons, ← Nat.add_assoc]

namespace Arena

/-! ## Headers and links -/

theorem top_lt {a : Arena} (h : a.top ≤ a.window.ceiling) : a.top < 2 ^ 64 - 1 := by
  have h1 := a.window.fits
  have h2 := a.window.base_pos
  omega

theorem read_of_heads {a : Arena} {off : Nat} {h : Header} (hh : Heads a.memory off h)
    (hs : off + headerSize ≤ a.top) (ht : a.top ≤ a.window.ceiling) :
    a.read off = .ok h := by
  have hw : Word.add off headerSize = .ok (off + headerSize) :=
    Word.add_eq_ok.mpr ⟨rfl, by have := top_lt ht; omega⟩
  unfold read
  rw [hw]
  simp only [bind, Except.bind, if_neg (Nat.not_lt.mpr hs), if_pos hh.guard_eq, hh.load_eq]
  rfl

theorem successor_of_link {a : Arena} {off next : Nat} {h : Header} (hn : h.next = some next)
    (he : next = off + headerSize + h.size) (hr : next + headerSize ≤ a.top) :
    a.successor off h = .ok (some next) := by
  unfold successor
  rw [hn]
  exact if_pos ⟨he, hr⟩

theorem predecessor_of_link {a : Arena} {off prev : Nat} {h : Header} (hp : h.prev = some prev)
    (hl : prev < off) (hg : prev % granule = 0) : a.predecessor off h = .ok (some prev) := by
  unfold predecessor
  rw [hp]
  exact if_pos ⟨hl, hg⟩

namespace Lists

variable {a : Arena} {pre post : List Block} {b : Block}

theorem concat_iff : a.Lists (pre ++ [b] ++ post) ↔ a.Lists (pre ++ b :: post) := by
  rw [List.append_assoc, List.singleton_append]

theorem stands (h : a.Lists (pre ++ b :: post)) :
    Stands a.memory (span pre) b (lastLink none 0 pre)
      (firstLink (span pre + b.extent) post none) := by
  have := h.tiled.stands
  rwa [Nat.zero_add] at this

theorem stop_le (h : a.Lists (pre ++ b :: post)) : span pre + b.extent ≤ a.top := by
  rw [h.top_eq, span_append, span_cons]
  omega

theorem read (h : a.Lists (pre ++ b :: post)) :
    a.read (span pre) = .ok (b.headerIn pre post) := by
  have hs := h.stop_le
  have he : b.extent = headerSize + b.size := rfl
  exact read_of_heads h.stands.heads (by omega) h.top_le

theorem span_pre_aligned (h : a.Lists (pre ++ b :: post)) : span pre % granule = 0 :=
  span_aligned fun x hx => h.aligned x (List.mem_append_left _ hx)

theorem successor (h : a.Lists (pre ++ b :: post)) :
    a.successor (span pre) (b.headerIn pre post) =
      .ok (firstLink (span pre + b.extent) post none) := by
  cases post with
  | nil => rfl
  | cons q rest =>
    have hs : span pre + (b.extent + (q.extent + span rest)) = a.top := by
      rw [h.top_eq, span_append, span_cons, span_cons]
    have hb : b.extent = headerSize + b.size := rfl
    have hq : q.extent = headerSize + q.size := rfl
    exact successor_of_link rfl (by rw [Block.headerIn_size]; omega) (by omega)

theorem predecessor (h : a.Lists (pre ++ b :: post)) :
    a.predecessor (span pre) (b.headerIn pre post) = .ok (lastLink none 0 pre) := by
  rcases List.eq_nil_or_concat pre with rfl | ⟨xs, x, rfl⟩
  · rfl
  · have hx : span xs % granule = 0 :=
      span_aligned fun y hy => h.aligned y (by simp [hy])
    have hpos := x.extent_pos
    rw [List.concat_eq_append, lastLink_concat, Nat.zero_add]
    refine predecessor_of_link ?_ ?_ hx
    · rw [Block.headerIn, lastLink_concat, Nat.zero_add]
      rfl
    · rw [span_append, span_cons]
      omega

theorem successorSegment (h : a.Lists (pre ++ b :: post)) :
    a.successorSegment (span pre) (b.headerIn pre post) =
      .ok (segments (some (span pre)) (span pre + b.extent) post).head? := by
  unfold Arena.successorSegment
  rw [h.successor]
  cases post with
  | nil => rfl
  | cons q rest =>
    have hr := (concat_iff.mpr h).read
    have hp := span_concat pre b
    have hq : q.headerIn (pre ++ [b]) rest =
        q.header (some (span pre)) (firstLink (span pre + b.extent + q.extent) rest none) := by
      unfold Block.headerIn
      rw [lastLink_concat, Nat.zero_add, hp]
    rw [hp, hq] at hr
    simp only [bind, Except.bind, firstLink_cons, hr, segments, List.head?_cons]
    rfl

/-! ## The walk -/

/-- Walking a tiled part of the arena visits its blocks in order. -/
theorem walkFrom_tiled {a : Arena} {prev : Option Nat} {off : Nat} {bs : List Block}
    (ht : Tiled a.memory prev off bs none) (hne : bs ≠ []) (hs : off + span bs ≤ a.top)
    (hc : a.top ≤ a.window.ceiling) :
    a.walkFrom off = ⟨segments prev off bs, none⟩ := by
  induction bs generalizing prev off with
  | nil => exact absurd rfl hne
  | cons b rest ih =>
    obtain ⟨hb, hrest⟩ := tiled_cons.mp ht
    rw [span_cons] at hs
    have he : b.extent = headerSize + b.size := rfl
    have hread := read_of_heads hb.heads (by omega) hc
    cases rest with
    | nil =>
      have hstep : a.step off = .ok (⟨off, b.header prev none⟩, none) := by
        unfold Arena.step
        rw [hread]
        rfl
      rw [walkFrom, hstep]
      rfl
    | cons q rest' =>
      have hq : q.extent = headerSize + q.size := rfl
      rw [span_cons] at hs
      have hsucc : a.successor off (b.header prev (some (off + b.extent))) =
          .ok (some (off + b.extent)) :=
        successor_of_link rfl (by rw [Block.header_size]; omega) (by omega)
      have hstep : a.step off =
          .ok (⟨off, b.header prev (some (off + b.extent))⟩, some (off + b.extent)) := by
        unfold Arena.step
        rw [hread, firstLink_cons]
        simp only [bind, Except.bind, hsucc]
        rfl
      have hwalk := ih hrest (List.cons_ne_nil _ _) (by rw [span_cons]; omega)
      rw [walkFrom, hstep]
      simp only [hwalk]
      rfl

theorem ne_nil {bs : List Block} (h : a.Lists bs) : bs ≠ [] := by
  rintro rfl
  have := h.last_eq
  cases this

/-- The walk of an arena visits the blocks of its row in order. -/
theorem walk {bs : List Block} (h : a.Lists bs) : a.walk = ⟨segments none 0 bs, none⟩ :=
  walkFrom_tiled h.tiled h.ne_nil (by rw [h.top_eq]; omega) h.top_le

theorem mem_walk_iff {bs : List Block} (h : a.Lists bs) {s : Segment} :
    s ∈ a.walk.segments ↔
      ∃ pre b post, bs = pre ++ b :: post ∧ s = ⟨span pre, b.headerIn pre post⟩ := by
  rw [h.walk, mem_segments_iff]
  simp only [Nat.zero_add]
  rfl

end Lists

end Arena

/-! ## The first-fit search -/

/-- A block that can hold `size` bytes. -/
def Block.Fits (size : Nat) (b : Block) : Prop := b.used = false ∧ size ≤ b.size

instance (size : Nat) : DecidablePred (Block.Fits size) := fun b =>
  inferInstanceAs (Decidable (b.used = false ∧ size ≤ b.size))

/-- The first block of a row that fits, with what stands on either side of it. -/
theorem firstFit_cases (size : Nat) (bs : List Block) :
    (∃ pre b post, bs = pre ++ b :: post ∧ b.Fits size ∧ ∀ x ∈ pre, ¬ x.Fits size) ∨
      ∀ x ∈ bs, ¬ x.Fits size := by
  induction bs with
  | nil => exact Or.inr fun x hx => absurd hx List.not_mem_nil
  | cons b rest ih =>
    by_cases hb : b.Fits size
    · exact Or.inl ⟨[], b, rest, rfl, hb, fun x hx => absurd hx List.not_mem_nil⟩
    · rcases ih with ⟨pre, c, post, rfl, hc, hpre⟩ | hnone
      · refine Or.inl ⟨b :: pre, c, post, rfl, hc, ?_⟩
        intro x hx
        rcases List.mem_cons.mp hx with rfl | hx
        · exact hb
        · exact hpre x hx
      · apply Or.inr
        intro x hx
        rcases List.mem_cons.mp hx with rfl | hx
        · exact hb
        · exact hnone x hx

theorem find?_segments_of_first {size : Nat} (prev : Option Nat) (off : Nat)
    {pre : List Block} (post : List Block) {b : Block} (hb : b.Fits size)
    (hpre : ∀ x ∈ pre, ¬ x.Fits size) :
    ((segments prev off (pre ++ b :: post)).find? fun s => Arena.Fits size s).map
      Segment.offset = some (off + span pre) := by
  induction pre generalizing prev off with
  | nil =>
    rw [List.nil_append, segments, List.find?_cons_of_pos]
    · rfl
    · exact decide_eq_true hb
  | cons x xs ih =>
    rw [List.cons_append, segments, List.find?_cons_of_neg]
    · rw [ih _ _ fun y hy => hpre y (List.mem_cons_of_mem x hy), span_cons, Nat.add_assoc]
    · have hx := hpre x List.mem_cons_self
      simp only [decide_eq_true_eq]
      exact hx

theorem find?_segments_eq_none {size : Nat} {prev : Option Nat} {off : Nat} {bs : List Block}
    (h : ∀ x ∈ bs, ¬ x.Fits size) :
    (segments prev off bs).find? (fun s => Arena.Fits size s) = none := by
  induction bs generalizing prev off with
  | nil => rfl
  | cons x xs ih =>
    rw [segments, List.find?_cons_of_neg]
    · exact ih fun y hy => h y (List.mem_cons_of_mem x hy)
    · have hx := h x List.mem_cons_self
      simp only [decide_eq_true_eq]
      exact hx

namespace Arena.Lists

variable {a : Arena}

/-- The search finds the first block that fits. -/
theorem firstFit_of_first {size : Nat} {pre post : List Block} {b : Block}
    (h : a.Lists (pre ++ b :: post)) (hb : b.Fits size) (hpre : ∀ x ∈ pre, ¬ x.Fits size) :
    a.firstFit size = .ok (some (span pre)) := by
  have hf := find?_segments_of_first none 0 post hb hpre
  unfold Arena.firstFit
  rw [h.walk]
  obtain ⟨s, hs, hoff⟩ := Option.map_eq_some_iff.mp hf
  simp only [hs]
  rw [hoff, Nat.zero_add]

/-- The search finds nothing exactly where nothing fits. -/
theorem firstFit_of_none {size : Nat} {bs : List Block} (h : a.Lists bs)
    (hnone : ∀ x ∈ bs, ¬ x.Fits size) : a.firstFit size = .ok none := by
  unfold Arena.firstFit
  rw [h.walk]
  simp only [find?_segments_eq_none hnone]

end Arena.Lists

/-! ## Sums over what is used and what is free -/

section Sums

variable {α : Type} (isUsed : α → Bool) (size : α → Nat)

/-- The sizes of the members of a list that are used, or that are free. -/
def payloadBy (used : Bool) (xs : List α) : Nat :=
  ((xs.filter fun x => isUsed x == used).map size).sum

/-- How many members of a list are used, or are free. -/
def countBy (used : Bool) (xs : List α) : Nat := (xs.filter fun x => isUsed x == used).length

theorem payloadBy_cons (used : Bool) (x : α) (xs : List α) :
    payloadBy isUsed size used (x :: xs) =
      (if isUsed x = used then size x else 0) + payloadBy isUsed size used xs := by
  unfold payloadBy
  by_cases h : isUsed x = used
  · rw [if_pos h, List.filter_cons_of_pos (by simp [h]), List.map_cons, List.sum_cons]
  · rw [if_neg h, List.filter_cons_of_neg (by simp [h]), Nat.zero_add]

theorem countBy_cons (used : Bool) (x : α) (xs : List α) :
    countBy isUsed used (x :: xs) =
      (if isUsed x = used then 1 else 0) + countBy isUsed used xs := by
  unfold countBy
  by_cases h : isUsed x = used
  · rw [if_pos h, List.filter_cons_of_pos (by simp [h]), List.length_cons, Nat.add_comm]
  · rw [if_neg h, List.filter_cons_of_neg (by simp [h]), Nat.zero_add]

theorem payloadBy_append (used : Bool) (xs ys : List α) :
    payloadBy isUsed size used (xs ++ ys) =
      payloadBy isUsed size used xs + payloadBy isUsed size used ys := by
  unfold payloadBy
  rw [List.filter_append, List.map_append, List.sum_append]

end Sums

/-! ## The audit -/

/-- No two free blocks of a row are adjacent. -/
def Separated (bs : List Block) : Prop := bs.IsChain fun x y => x.used = true ∨ y.used = true

/-- Payload bytes of the blocks of a row that are used, or that are free. -/
def payloadOf (used : Bool) (bs : List Block) : Nat := payloadBy Block.used Block.size used bs

/-- How many blocks of a row are used, or are free. -/
def countOf (used : Bool) (bs : List Block) : Nat := countBy Block.used used bs

/-- The sums of an audit, counted on over a row. -/
def Totals.over (t : Totals) (bs : List Block) : Totals :=
  { t with
    usedBytes := t.usedBytes + payloadOf true bs
    usedBlocks := t.usedBlocks + countOf true bs
    freeBytes := t.freeBytes + payloadOf false bs
    freeBlocks := t.freeBlocks + countOf false bs }

theorem Totals.add_block {t : Totals} {off : Nat} {b : Block} {prev next : Option Nat}
    (hw : t.usedBytes + t.freeBytes + b.size < 2 ^ 64) :
    t.add ⟨off, b.header prev next⟩ = .ok (t.over [b]) := by
  unfold Totals.add Totals.over payloadOf countOf payloadBy countBy
  cases hb : b.used with
  | true =>
    have hadd : Word.add t.usedBytes b.size = .ok (t.usedBytes + b.size) :=
      Word.add_eq_ok.mpr ⟨rfl, by omega⟩
    simp [hb, hadd, bind, Except.bind, pure, Except.pure]
  | false =>
    have hadd : Word.add t.freeBytes b.size = .ok (t.freeBytes + b.size) :=
      Word.add_eq_ok.mpr ⟨rfl, by omega⟩
    simp [hb, hadd, bind, Except.bind, pure, Except.pure]

theorem Totals.over_over (t : Totals) (b : Block) (rest : List Block) :
    (t.over [b]).over rest = t.over (b :: rest) := by
  unfold Totals.over payloadOf countOf
  simp only [payloadBy_cons, countBy_cons]
  cases b.used <;> simp [payloadBy, countBy] <;> omega

theorem Totals.over_bytes (t : Totals) (b : Block) :
    (t.over [b]).usedBytes + (t.over [b]).freeBytes = t.usedBytes + t.freeBytes + b.size := by
  unfold Totals.over payloadOf
  simp only [payloadBy_cons]
  cases b.used <;> simp [payloadBy] <;> omega

namespace Arena

theorem checkAfter_of_link {a : Arena} {s t : Segment} (hp : t.header.prev = some s.offset)
    (hu : s.header.used = true ∨ t.header.used = true) : a.checkAfter (some s) t = .ok () := by
  refine (if_neg fun hne => hne hp).trans (if_neg ?_)
  rintro ⟨hs, ht⟩
  simp [hs, ht] at hu

/-- Checking and counting goes through a row of blocks behind a block it may
follow. -/
theorem tally_segments {a : Arena} {bs : List Block} {t : Totals} {x : Block} {off place : Nat}
    {prev next : Option Nat} (hs : Separated (x :: bs))
    (hw : t.usedBytes + t.freeBytes + span bs < 2 ^ 64) :
    a.tally (some ⟨place, x.header prev next⟩) t (segments (some place) off bs) =
      .ok (t.over bs, (⟨place, x.header prev next⟩ :: segments (some place) off bs).getLast?) := by
  induction bs generalizing t x off place prev next with
  | nil => rfl
  | cons b rest ih =>
    obtain ⟨hxb, hrest⟩ := List.isChain_cons_cons.mp hs
    rw [span_cons] at hw
    have he : b.extent = headerSize + b.size := rfl
    have hcheck : a.checkAfter (some ⟨place, x.header prev next⟩)
        ⟨off, b.header (some place) (firstLink (off + b.extent) rest none)⟩ = .ok () :=
      checkAfter_of_link rfl hxb
    have hadd : t.add ⟨off, b.header (some place) (firstLink (off + b.extent) rest none)⟩ =
        .ok (t.over [b]) := Totals.add_block (by omega)
    have hbytes := t.over_bytes b
    rw [segments, tally, hcheck]
    simp only [bind, Except.bind, hadd]
    rw [ih hrest (by omega), Totals.over_over, List.getLast?_cons_cons]

/-- Checking and counting goes through a row that starts at its first block. -/
theorem tally_row {a : Arena} {bs : List Block} {t : Totals} (prev : Option Nat) (off : Nat)
    (hs : Separated bs) (hw : t.usedBytes + t.freeBytes + span bs < 2 ^ 64) :
    a.tally none t (segments prev off bs) = .ok (t.over bs, (segments prev off bs).getLast?) := by
  cases bs with
  | nil => rfl
  | cons b rest =>
    rw [span_cons] at hw
    have he : b.extent = headerSize + b.size := rfl
    have hadd : t.add ⟨off, b.header prev (firstLink (off + b.extent) rest none)⟩ =
        .ok (t.over [b]) := Totals.add_block (by omega)
    have hbytes := t.over_bytes b
    rw [segments, tally]
    simp only [bind, Except.bind, checkAfter, hadd]
    rw [tally_segments hs (by omega), Totals.over_over]

/-- The audit of an arena that holds a row of blocks returns the sums of the
row. -/
theorem Lists.totals {a : Arena} {bs : List Block} (h : a.Lists bs) (hs : Separated bs) :
    a.totals = .ok ((Totals.start a).over bs) := by
  have htop := top_lt h.top_le
  have htally : a.tally none (Totals.start a) (segments none 0 bs) =
      .ok ((Totals.start a).over bs, (segments none 0 bs).getLast?) := by
    refine tally_row none 0 hs ?_
    rw [← h.top_eq]
    simp only [Totals.start]
    omega
  have hlast : ∀ s, (segments none 0 bs).getLast? = some s → a.checkLast s = .ok () := by
    intro s hgl
    rcases List.eq_nil_or_concat bs with rfl | ⟨xs, x, rfl⟩
    · exact absurd rfl h.ne_nil
    · rw [List.concat_eq_append] at hgl h
      rw [getLast?_segments_concat] at hgl
      cases hgl
      have hl := h.last_eq
      rw [lastLink_concat, Option.some.injEq] at hl
      have hspan := h.top_eq
      rw [span_append, span_cons, span_nil] at hspan
      have he : x.extent = headerSize + x.size := rfl
      have h1 : Word.add (0 + span xs) headerSize = .ok (0 + span xs + headerSize) :=
        Word.add_eq_ok.mpr ⟨rfl, by omega⟩
      have h2 : Word.add (0 + span xs + headerSize) x.size =
          .ok (0 + span xs + headerSize + x.size) := Word.add_eq_ok.mpr ⟨rfl, by omega⟩
      unfold checkLast
      rw [if_neg (fun hne => hne hl)]
      simp only [h1, bind, Except.bind, Block.header_size, h2]
      exact if_neg (fun hne => hne (by omega))
  unfold Arena.totals
  rw [h.walk]
  simp only [bind, Except.bind, htally]
  cases hgl : (segments none 0 bs).getLast? with
  | none => rfl
  | some s => simp only [hlast s hgl]; rfl

/-! ## Addresses -/

section Addresses

variable {a : Arena} {pre post : List Block} {b : Block}

theorem addr_eq {off : Nat} (htop : a.top ≤ a.window.ceiling) (h : off ≤ a.top) :
    a.addr off = a.window.base + off := by
  have := a.window.fits
  unfold addr
  exact Nat.mod_eq_of_lt (by omega)

theorem Lists.payload_eq (h : a.Lists (pre ++ b :: post)) :
    a.payload (span pre) = a.window.base + (span pre + headerSize) := by
  have hstop := h.stop_le
  have he : b.extent = headerSize + b.size := rfl
  exact addr_eq h.top_le (by omega)

theorem Lists.locate_payload (h : a.Lists (pre ++ b :: post)) (hb : 0 < b.size) :
    a.locate (a.payload (span pre)) = .ok (span pre) := by
  have hstop := h.stop_le
  have he : b.extent = headerSize + b.size := rfl
  have hstart : a.addr 0 = a.window.base + 0 := addr_eq h.top_le (Nat.zero_le _)
  have hoff : a.window.base + (span pre + headerSize) - (a.window.base + 0) - headerSize =
      span pre := by omega
  rw [locate_eq, h.payload_eq, addr_eq h.top_le (Nat.le_refl _), hstart, if_pos (by omega), hoff,
    if_pos h.span_pre_aligned]

end Addresses

end Arena

end GuardedHeap
