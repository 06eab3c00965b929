/-
  Proofs/Tiling/Edit.lean --- changing a row of blocks.

  WHAT THIS FILE IS FOR.  What the operations that change an arena make of the
  row of blocks it holds: taking a block into use and splitting it, merging two
  neighbors, changing a header, clearing and overwriting payloads, and the check and
  the clearing of a free block that was written to.

  WHAT IS PROVED.  Each operation succeeds on the blocks it is made for, and the
  arena then holds the row with these blocks replaced.  Nothing at or above the
  top changes.
-/
import GuardedHeap.Proofs.Tiling.Walk
import Mathlib.Data.Nat.Find

set_option autoImplicit false

namespace GuardedHeap

/-! ## Blocks made from blocks -/

namespace Block

/-- What is split off when `size` bytes of a block are taken. -/
def remnant (b : Block) (size : Nat) : Block :=
  ⟨false, b.size - size - headerSize, none, none, none, fun i => b.bytes (size + headerSize + i)⟩

/-- A block of which `size` bytes are taken into use.  What is left over stays with
the block unless it is more than a header. -/
def taken (b : Block) (size : Nat) : Block :=
  if headerSize < b.size - size then { b with used := true, size := size }
  else { b with used := true }

/-- What becomes a block of its own when `size` bytes of a block are taken. -/
def leftover (b : Block) (size : Nat) : List Block :=
  if headerSize < b.size - size then [b.remnant size] else []

/-- A block with `size` bytes of it taken into use, and what is left over. -/
def carve (b : Block) (size : Nat) : List Block := b.taken size :: b.leftover size

theorem carve_of_split {b : Block} {size : Nat} (h : headerSize < b.size - size) :
    b.carve size = [{ b with used := true, size := size }, b.remnant size] := by
  rw [carve, taken, leftover, if_pos h, if_pos h]

theorem carve_of_whole {b : Block} {size : Nat} (h : ¬ headerSize < b.size - size) :
    b.carve size = [{ b with used := true }] := by
  rw [carve, taken, leftover, if_neg h, if_neg h]

@[simp] theorem used_taken (b : Block) (size : Nat) : (b.taken size).used = true := by
  unfold taken
  split <;> rfl

@[simp] theorem bytes_taken (b : Block) (size : Nat) : (b.taken size).bytes = b.bytes := by
  unfold taken
  split <;> rfl

theorem size_taken_le {b : Block} {size : Nat} (h : size ≤ b.size) :
    (b.taken size).size ≤ b.size := by
  unfold taken
  split
  · exact h
  · exact Nat.le_refl _

theorem le_size_taken {b : Block} {size : Nat} (h : size ≤ b.size) :
    size ≤ (b.taken size).size := by
  unfold taken
  split
  · exact Nat.le_refl _
  · exact h

/-- Two neighbors as one block; the header of the higher one is clear. -/
def fuse (b c : Block) : Block :=
  { b with
    size := b.size + (headerSize + c.size)
    bytes := fun i =>
      if i < b.size then b.bytes i
      else if i < b.size + headerSize then 0
      else c.bytes (i - (b.size + headerSize)) }

theorem extent_fuse (b c : Block) : (b.fuse c).extent = b.extent + c.extent := by
  simp only [extent, fuse]
  omega

theorem span_carve (b : Block) {size : Nat} (h : size ≤ b.size) :
    span (b.carve size) = b.extent := by
  by_cases hsplit : headerSize < b.size - size
  · rw [carve_of_split hsplit]
    simp only [span_cons, span_nil, extent, remnant]
    omega
  · rw [carve_of_whole hsplit]
    simp [extent]

theorem extent_taken (b : Block) {size : Nat} (h : size ≤ b.size) :
    (b.taken size).extent + span (b.leftover size) = b.extent := by
  rw [← span_cons]
  exact b.span_carve h

theorem extent_taken_of_split {b : Block} {size : Nat} (h : headerSize < b.size - size) :
    (b.taken size).extent = headerSize + size := by
  unfold taken
  rw [if_pos h]
  rfl

theorem extent_remnant_of_split {b : Block} {size : Nat} (h : headerSize < b.size - size) :
    (b.remnant size).extent = b.size - size := by
  simp only [extent, remnant]
  omega

theorem span_taken_of_split {b : Block} {size : Nat} (h : headerSize < b.size - size)
    (pre : List Block) : span (pre ++ [b.taken size]) = span pre + headerSize + size := by
  rw [span_concat, extent_taken_of_split h, Nat.add_assoc]

theorem span_remnant_of_split {b : Block} {size : Nat} (h : headerSize < b.size - size)
    (pre : List Block) :
    span (pre ++ [b.taken size]) + (b.remnant size).extent = span pre + b.extent := by
  rw [span_taken_of_split h, extent_remnant_of_split h, Nat.add_assoc, Nat.add_assoc]
  have hsize : size + (b.size - size) = b.size := by omega
  rw [hsize]
  rfl

theorem append_carve_of_split {b : Block} {size : Nat} (h : headerSize < b.size - size)
    (pre post : List Block) :
    pre ++ (b.carve size ++ post) = (pre ++ [b.taken size]) ++ b.remnant size :: post := by
  rw [carve, leftover, if_pos h]
  simp

theorem append_carve_of_whole {b : Block} {size : Nat} (h : ¬ headerSize < b.size - size)
    (pre post : List Block) : pre ++ (b.carve size ++ post) = pre ++ b.taken size :: post := by
  rw [carve, leftover, if_neg h]
  simp

end Block

theorem forall_mem_replace {P : Block → Prop} {pre post : List Block} (mid mid' : List Block)
    (h : ∀ x ∈ pre ++ (mid ++ post), P x) (h' : ∀ x ∈ mid', P x) :
    ∀ x ∈ pre ++ (mid' ++ post), P x := by
  intro x hx
  rcases List.mem_append.mp hx with hx | hx
  · exact h x (List.mem_append_left _ hx)
  · rcases List.mem_append.mp hx with hx | hx
    · exact h' x hx
    · exact h x (List.mem_append_right _ (List.mem_append_right _ hx))

theorem Block.storable_header {b : Block} {prev next : Option Nat} (hs : b.size < 2 ^ 64)
    (hp : ∀ off ∈ prev, off < 2 ^ 64 - 1) (hn : ∀ off ∈ next, off < 2 ^ 64 - 1) :
    (b.header prev next).Storable :=
  ⟨hs, hp, hn⟩

theorem lastLink_lt {bs : List Block} {prev : Option Nat} {off bound : Nat}
    (hp : ∀ p ∈ prev, p < bound) (hs : off + span bs ≤ bound) :
    ∀ p ∈ lastLink prev off bs, p < bound := by
  induction bs generalizing prev off with
  | nil => exact hp
  | cons b rest ih =>
    rw [span_cons] at hs
    have hpos := b.extent_pos
    rw [lastLink_cons]
    refine ih ?_ (by omega)
    intro p hp'
    cases hp'
    omega

theorem firstLink_lt {bs : List Block} {off bound : Nat} (hs : off + span bs ≤ bound) :
    ∀ p ∈ firstLink off bs none, p < bound := by
  cases bs with
  | nil => exact fun p hp => nomatch hp
  | cons b rest =>
    rw [span_cons] at hs
    have hpos := b.extent_pos
    intro p hp
    cases hp
    omega

theorem head?_segments_offset (prev : Option Nat) (off : Nat) (bs : List Block) :
    (segments prev off bs).head?.map Segment.offset = firstLink off bs none := by
  cases bs with
  | nil => rfl
  | cons b rest => rfl

namespace Arena

/-! ## Single changes -/

@[simp] theorem run_writeHeader (off : Nat) (h : Header) (a : Arena) :
    writeHeader off h a = .ok () { a with memory := Header.store a.memory off h } := rfl

@[simp] theorem run_clear (off len : Nat) (a : Arena) :
    clear off len a = .ok () { a with memory := a.memory.zero off len } := rfl

@[simp] theorem run_setTop (top : Nat) (a : Arena) :
    setTop top a = .ok () { a with top := top } := rfl

/-- A change of an arena that leaves its window, its top and all bytes from the
top on as they were. -/
structure Inside (a a' : Arena) : Prop where
  window_eq : a'.window = a.window
  top_eq : a'.top = a.top
  above : ∀ i, a.top ≤ i → a'.memory.get i = a.memory.get i

theorem Inside.refl (a : Arena) : a.Inside a := ⟨rfl, rfl, fun _ _ => rfl⟩

theorem Inside.trans {a b c : Arena} (h : a.Inside b) (h' : b.Inside c) : a.Inside c where
  window_eq := h'.window_eq.trans h.window_eq
  top_eq := h'.top_eq.trans h.top_eq
  above i hi := (h'.above i (by rw [h.top_eq]; exact hi)).trans (h.above i hi)

namespace Lists

variable {a : Arena} {pre post : List Block} {b : Block}

theorem parts (h : a.Lists (pre ++ b :: post)) :
    Tiled a.memory none 0 pre (some (span pre)) ∧
      Stands a.memory (span pre) b (lastLink none 0 pre)
        (firstLink (span pre + b.extent) post none) ∧
        Tiled a.memory (some (span pre)) (span pre + b.extent) post none := by
  obtain ⟨h1, h2⟩ := tiled_append.mp h.tiled
  rw [Nat.zero_add] at h1 h2
  exact ⟨h1, tiled_cons.mp h2⟩

end Lists

theorem tiled_of_parts {m : Memory} {pre rest : List Block} {b : Block}
    (h1 : Tiled m none 0 pre (some (span pre)))
    (h2 : Tiled m (lastLink none 0 pre) (span pre) (b :: rest) none) :
    Tiled m none 0 (pre ++ b :: rest) none := by
  refine tiled_append.mpr ⟨?_, ?_⟩
  · rwa [Nat.zero_add]
  · rwa [Nat.zero_add]

/-- A header stored behind a row makes its block the last one. -/
theorem tiled_concat_store {m : Memory} {pre : List Block} {d : Block}
    (h : Tiled m none 0 pre (some (span pre))) (hlarge : span pre + d.extent < 2 ^ 64)
    (hbytes : ∀ i, i < d.size → m.get (span pre + headerSize + i) = d.bytes i) :
    Tiled (Header.store m (span pre) (d.headerIn pre [])) none 0 (pre ++ [d]) none := by
  have he : d.extent = headerSize + d.size := rfl
  simp only [headerSize] at he
  have hstore : (d.headerIn pre []).Storable :=
    Block.storable_header (by omega) (lastLink_lt (fun p hp => nomatch hp) (by omega))
      fun p hp => nomatch hp
  refine tiled_of_parts (h.congr (Agree.store_below _ _ (Nat.le_of_eq (Nat.zero_add _))))
    (tiled_cons.mpr ⟨⟨heads_store _ _ hstore, ?_⟩, trivial⟩)
  intro i hi
  rw [Header.get_store_of_outside _ (Or.inr (Nat.le_add_right _ _))]
  exact hbytes i hi

/-! ## Payloads -/

/-- Bytes that change inside one payload change the bytes of its block. -/
theorem Lists.overwrite {a : Arena} {pre post : List Block} {b : Block} {m : Memory}
    (bytes : Nat → UInt8) (h : a.Lists (pre ++ b :: post))
    (hin : ∀ i, i < b.size → m.get (span pre + headerSize + i) = bytes i)
    (hout : ∀ i, i < span pre + headerSize ∨ span pre + b.extent ≤ i →
      m.get i = a.memory.get i) :
    Lists { a with memory := m } (pre ++ { b with bytes := bytes } :: post) ∧
      a.Inside { a with memory := m } := by
  obtain ⟨h1, h2, h3⟩ := h.parts
  have he : b.extent = headerSize + b.size := rfl
  have hstop := h.stop_le
  refine ⟨⟨?_, ?_, ?_, ?_, h.top_le⟩, ⟨rfl, rfl, fun i hi => hout i (by omega)⟩⟩
  · refine tiled_of_parts (h1.congr fun i _ hi => hout i (by omega))
      (tiled_cons.mpr ⟨⟨?_, hin⟩, ?_⟩)
    · exact h2.heads.congr fun i hi hj => hout i (by omega)
    · exact h3.congr fun i hi _ => hout i (Or.inr hi)
  · rw [h.top_eq, span_append, span_append]
    rfl
  · have := h.last_eq
    rw [lastLink_append] at this ⊢
    exact this
  · apply forall_mem_replace [b] [_] h.aligned
    intro x hx
    rw [List.mem_singleton] at hx
    subst hx
    exact h.aligned b (by simp)

/-- Clearing a payload clears the bytes of its block. -/
theorem Lists.clearPayload {a : Arena} {pre post : List Block} {b : Block}
    (h : a.Lists (pre ++ b :: post)) :
    ∃ a', Arena.clearPayload (span pre) b.size a = .ok () a' ∧
      a'.Lists (pre ++ { b with bytes := fun _ => 0 } :: post) ∧ a.Inside a' := by
  have he : b.extent = headerSize + b.size := rfl
  have hstop := h.stop_le
  have htop := top_lt h.top_le
  have hadd : Word.add (span pre) headerSize = .ok (span pre + headerSize) :=
    Word.add_eq_ok.mpr ⟨rfl, by omega⟩
  obtain ⟨hl, hi⟩ := h.overwrite (m := a.memory.zero (span pre + headerSize) b.size) (fun _ => 0)
    (fun i hi => by rw [Memory.get_zero, if_pos (by omega)])
    (fun i hi => by rw [Memory.get_zero, if_neg (by omega)])
  refine ⟨_, ?_, hl, hi⟩
  unfold Arena.clearPayload
  rw [hadd, run_bind_ok (run_lift_ok _ _), run_clear]

/-! ## Headers -/

/-- Writing another header over that of a block changes the block. -/
theorem Lists.rehead {a : Arena} {pre post : List Block} {b c : Block}
    (h : a.Lists (pre ++ b :: post)) (hs : c.size = b.size) (hb : c.bytes = b.bytes) :
    Lists { a with memory := Header.store a.memory (span pre) (c.headerIn pre post) }
        (pre ++ c :: post) ∧
      a.Inside { a with memory := Header.store a.memory (span pre) (c.headerIn pre post) } := by
  obtain ⟨h1, h2, h3⟩ := h.parts
  have heb : b.extent = headerSize + b.size := rfl
  have hec : c.extent = b.extent := congrArg (headerSize + ·) hs
  have hstop := h.stop_le
  have htop := top_lt h.top_le
  have hspan := h.top_eq
  rw [span_append, span_cons] at hspan
  have hstore : (c.headerIn pre post).Storable := by
    refine Block.storable_header (by omega) ?_ ?_
    · exact lastLink_lt (fun p hp => nomatch hp) (by omega)
    · exact firstLink_lt (by omega)
  refine ⟨⟨?_, ?_, ?_, ?_, h.top_le⟩, ⟨rfl, rfl, ?_⟩⟩
  · refine tiled_of_parts (h1.congr (Agree.store_below _ _ (by omega)))
      (tiled_cons.mpr ⟨⟨heads_store _ _ hstore, ?_⟩, ?_⟩)
    · intro i hi
      rw [Header.get_store_of_outside _ (by omega), hb]
      exact h2.payload i (by omega)
    · rw [hec]
      exact h3.congr (Agree.store_above _ _ (by omega))
  · rw [h.top_eq, span_append, span_append, span_cons, span_cons, hec]
  · have := h.last_eq
    rw [lastLink_append, lastLink_cons] at this ⊢
    rw [hec]
    exact this
  · apply forall_mem_replace [b] [c] h.aligned
    intro x hx
    rw [List.mem_singleton] at hx
    subst hx
    rw [hs]
    exact h.aligned b (by simp)
  · intro i hi
    exact Header.get_store_of_outside _ (Or.inr (by omega))

/-- A change of a header that is a change of its block. -/
theorem Lists.amend {a : Arena} {pre post : List Block} {b c : Block} {f : Header → Header}
    (h : a.Lists (pre ++ b :: post)) (hf : ∀ prev next, f (b.header prev next) = c.header prev next)
    (hs : c.size = b.size) (hb : c.bytes = b.bytes) :
    ∃ a', Arena.amend (span pre) f a = .ok (c.headerIn pre post) a' ∧
      a'.Lists (pre ++ c :: post) ∧ a.Inside a' := by
  have hfh : f (b.headerIn pre post) = c.headerIn pre post := by
    have hec : c.extent = b.extent := congrArg (headerSize + ·) hs
    unfold Block.headerIn
    rw [hf, hec]
  refine ⟨_, ?_, h.rehead hs hb⟩
  unfold Arena.amend
  rw [run_bind_ok (run_get a), h.read, run_bind_ok (run_lift_ok _ _), hfh,
    run_bind_ok (run_writeHeader _ _ _)]
  rfl

/-! ## The link back -/

/-- The row behind a change takes a new link back.  Where there is none, the
recorded last segment moves. -/
theorem linkBack_tiled {a : Arena} {prev : Option Nat} {stop : Nat} {post : List Block}
    (off : Nat) (h : Tiled a.memory prev stop post none) (hoff : off < 2 ^ 64 - 1)
    (hw : stop + span post < 2 ^ 64 - 1) :
    ∃ m, linkBack (segments prev stop post).head? off a =
        .ok () { a with memory := m, last := if post = [] then off else a.last } ∧
      Tiled m (some off) stop post none ∧
      ∀ i, i < stop ∨ stop + headerSize ≤ i ∨ stop + span post ≤ i →
        m.get i = a.memory.get i := by
  cases post with
  | nil => exact ⟨a.memory, rfl, trivial, fun _ _ => rfl⟩
  | cons q rest =>
    rw [span_cons] at hw
    have hq : q.extent = headerSize + q.size := rfl
    have hstore : (q.header (some off) (firstLink (stop + q.extent) rest none)).Storable := by
      refine Block.storable_header (by omega) ?_ ?_
      · intro p hp
        cases hp
        exact hoff
      · exact firstLink_lt (by omega)
    refine
      ⟨Header.store a.memory stop (q.header (some off) (firstLink (stop + q.extent) rest none)),
      rfl, ?_, fun i hi => Header.get_store_of_outside _ (by rw [span_cons] at hi; omega)⟩
    exact h.relink (heads_store _ _ hstore) (Agree.store_above _ _ (Nat.le_refl _))

theorem lastLink_relink {p p' off last : Nat} {post : List Block}
    (h : lastLink (some p) off post = some last) :
    lastLink (some p') off post = some (if post = [] then p' else last) := by
  cases post with
  | nil => rfl
  | cons q rest => exact h

/-! ## Splitting -/

/-- Two headers where one block was, and a link back behind them, split the
block. -/
theorem Lists.tiled_split {a : Arena} {m : Memory} {pre post : List Block} {b : Block}
    {size split : Nat} (h : a.Lists (pre ++ b :: post)) (hs : split = span pre + headerSize + size)
    (hsplit : headerSize < b.size - size)
    (htaken : Heads m (span pre)
      (({ b with used := true, size := size } : Block).header (lastLink none 0 pre) (some split)))
    (hrest : Heads m split
      ((b.remnant size).header (some (span pre)) (firstLink (span pre + b.extent) post none)))
    (hpost : Tiled m (some split) (span pre + b.extent) post none)
    (hm : ∀ i, i < span pre ∨ span pre + headerSize ≤ i ∧ i < split ∨
      split + headerSize ≤ i ∧ i < span pre + b.extent → m.get i = a.memory.get i) :
    Tiled m none 0 (pre ++ (b.carve size ++ post)) none := by
  obtain ⟨h1, h2, h3⟩ := h.parts
  have he : b.extent = headerSize + b.size := rfl
  have hfirst : span pre + ({ b with used := true, size := size } : Block).extent = split := by
    rw [hs, Nat.add_assoc]
    rfl
  have hsecond : split + (b.remnant size).extent = span pre + b.extent := by
    simp only [Block.extent, Block.remnant]
    omega
  rw [Block.carve_of_split hsplit]
  refine tiled_of_parts (h1.congr fun i _ hi => hm i (by omega))
    (tiled_cons.mpr ⟨⟨?_, ?_⟩, tiled_cons.mpr ⟨⟨?_, ?_⟩, ?_⟩⟩)
  · rw [hfirst]
    exact htaken
  · intro i hi
    simp only at hi
    rw [hm _ (by omega)]
    exact h2.payload i (by omega)
  · rw [hfirst, hsecond]
    exact hrest
  · intro i hi
    simp only [Block.remnant] at hi ⊢
    rw [hfirst, hm _ (by omega), ← h2.payload _ (by omega)]
    congr 1
    omega
  · rw [hfirst, hsecond]
    exact hpost

/-- What a block is carved into keeps to the granule. -/
theorem Block.carve_aligned {b : Block} {size : Nat} (hb : b.size % granule = 0)
    (hg : size % granule = 0) : ∀ x ∈ b.carve size, x.size % granule = 0 := by
  intro x hx
  simp only [granule] at *
  by_cases hsplit : headerSize < b.size - size
  · rw [Block.carve_of_split hsplit] at hx
    rcases List.mem_cons.mp hx with rfl | hx
    · exact hg
    · rw [List.mem_singleton] at hx
      subst hx
      simp only [Block.remnant, headerSize]
      omega
  · rw [Block.carve_of_whole hsplit, List.mem_singleton] at hx
    subst hx
    exact hb

/-- Taking part of a block into use replaces it by what it is carved into. -/
theorem Lists.occupy {a : Arena} {pre post : List Block} {b : Block} {size : Nat}
    (h : a.Lists (pre ++ b :: post)) (hg : size % granule = 0) (hle : size ≤ b.size) :
    ∃ a', Arena.occupy (span pre) size a =
        .ok (if headerSize < b.size - size then some (span pre + headerSize + size) else none) a' ∧
      a'.Lists (pre ++ (b.carve size ++ post)) ∧ a.Inside a' := by
  obtain ⟨h1, h2, h3⟩ := h.parts
  have he : b.extent = headerSize + b.size := rfl
  have hstop := h.stop_le
  have htop := top_lt h.top_le
  have hspan := h.top_eq
  rw [span_append, span_cons] at hspan
  have hlarge : ¬ (b.headerIn pre post).size < size := Nat.not_lt.mpr hle
  unfold Arena.occupy
  rw [run_bind_ok (run_get a), h.read, run_bind_ok (run_lift_ok _ _)]
  dsimp only
  rw [if_neg (fun hne => hne hg), if_neg hlarge, h.successorSegment,
    run_bind_ok (run_lift_ok _ _)]
  by_cases hsplit : headerSize < b.size - size
  · -- the tail becomes a block of its own, between the block and its successor
    obtain ⟨split, hs⟩ : ∃ split, split = span pre + headerSize + size := ⟨_, rfl⟩
    have hpay : Word.add (span pre) headerSize = .ok (span pre + headerSize) :=
      Word.add_eq_ok.mpr ⟨rfl, by omega⟩
    have hadd : Word.add (span pre + headerSize) size = .ok split :=
      Word.add_eq_ok.mpr ⟨hs.symm, by omega⟩
    have hnext : ∀ p ∈ firstLink (span pre + b.extent) post none, p < 2 ^ 64 - 1 :=
      firstLink_lt (by omega)
    have hrest : ((b.remnant size).header (some (span pre))
        (firstLink (span pre + b.extent) post none)).Storable := by
      refine Block.storable_header (by simp only [Block.remnant]; omega) ?_ hnext
      intro p hp
      cases hp
      omega
    have htaken : (({ b with used := true, size := size } : Block).header (lastLink none 0 pre)
        (some split)).Storable := by
      refine Block.storable_header (by simp only; omega) ?_ ?_
      · exact lastLink_lt (fun p hp => nomatch hp) (by omega)
      · intro p hp
        cases hp
        omega
    obtain ⟨m, hrun, htiled, hout⟩ := linkBack_tiled split
      (a := { a with memory := Header.store a.memory split ((b.remnant size).header
        (some (span pre)) (firstLink (span pre + b.extent) post none)) })
      (h3.congr (Agree.store_above _ _ (by omega))) (by omega) (by omega)
    have hm : ∀ i, i < split ∨ split + headerSize ≤ i ∧ i < span pre + b.extent ∨ a.top ≤ i →
        m.get i = a.memory.get i := by
      intro i hi
      rw [hout i (by omega), Header.get_store_of_outside _ (by omega)]
    rw [if_pos (show headerSize < (b.headerIn pre post).size - size from hsplit), hpay,
      run_bind_ok (run_lift_ok _ _), hadd, run_bind_ok (run_lift_ok _ _), head?_segments_offset,
      run_bind_ok (run_writeHeader _ _ _), if_pos hsplit, ← hs]
    refine ⟨_, (run_bind_ok hrun).trans rfl, ⟨?_, ?_, ?_, ?_, h.top_le⟩, ⟨rfl, rfl, ?_⟩⟩
    · refine h.tiled_split hs hsplit (heads_store _ _ htaken) ?_ ?_ ?_
      · refine Heads.congr (m := m) ?_ (Agree.store_above _ _ (by omega))
        exact (heads_store _ _ hrest).congr fun i _ hi => hout i (by omega)
      · exact htiled.congr (Agree.store_above _ _ (by omega))
      · intro i hi
        rw [Header.get_store_of_outside _ (by omega), hm i (by omega)]
    · rw [h.top_eq, span_append, span_append, span_append, span_cons, b.span_carve hle]
    · have hl := h.last_eq
      rw [lastLink_append, lastLink_cons, Nat.zero_add] at hl
      have hstops : span pre + ({ b with used := true, size := size } : Block).extent +
          (b.remnant size).extent = span pre + b.extent := by
        simp only [Block.extent, Block.remnant]
        omega
      have hfirst : span pre + ({ b with used := true, size := size } : Block).extent = split := by
        rw [hs, Nat.add_assoc]
        rfl
      rw [Block.carve_of_split hsplit, lastLink_append, Nat.zero_add, List.cons_append,
        List.cons_append, List.nil_append, lastLink_cons, lastLink_cons, hstops, hfirst]
      exact lastLink_relink hl
    · exact forall_mem_replace [b] _ h.aligned
        (Block.carve_aligned (h.aligned b (by simp)) hg)
    · intro i hi
      rw [Header.get_store_of_outside _ (by omega), hm i (by omega)]
  · -- what is left over stays with the block
    rw [if_neg (show ¬ headerSize < (b.headerIn pre post).size - size from hsplit),
      if_neg hsplit, Block.carve_of_whole hsplit]
    exact ⟨_, rfl, h.rehead (c := { b with used := true }) rfl rfl⟩

/-! ## Merging -/

/-- One header where two blocks were, and a link back behind it, merge the
blocks. -/
theorem Lists.tiled_fuse {a : Arena} {m : Memory} {pre post : List Block} {x y : Block}
    (h : a.Lists (pre ++ x :: y :: post))
    (hlow : Heads m (span pre) ((x.fuse y).headerIn pre post))
    (hpost : Tiled m (some (span pre)) (span pre + x.extent + y.extent) post none)
    (hclear : ∀ i, i < headerSize → m.get (span pre + x.extent + i) = 0)
    (hm : ∀ i, i < span pre ∨ span pre + headerSize ≤ i ∧ i < span pre + x.extent ∨
      span pre + x.extent + headerSize ≤ i ∧ i < span pre + x.extent + y.extent →
        m.get i = a.memory.get i) :
    Tiled m none 0 (pre ++ x.fuse y :: post) none := by
  obtain ⟨h1, h2, h3⟩ := h.parts
  obtain ⟨h4, -⟩ := tiled_cons.mp h3
  have hx : x.extent = headerSize + x.size := rfl
  have hy : y.extent = headerSize + y.size := rfl
  have hspan : span pre + (x.fuse y).extent = span pre + x.extent + y.extent := by
    rw [Block.extent_fuse, Nat.add_assoc]
  refine tiled_of_parts (h1.congr fun i _ hi => hm i (by omega))
    (tiled_cons.mpr ⟨⟨hlow, ?_⟩, ?_⟩)
  · intro i hi
    -- the payload is that of the lower block, a cleared header, and that of the higher one
    simp only [Block.fuse] at hi ⊢
    split
    · rw [hm _ (by omega)]
      exact h2.payload i (by assumption)
    · split
      · rw [← hclear (i - x.size) (by omega)]
        congr 1
        omega
      · rw [hm _ (by omega), ← h4.payload _ (by omega)]
        congr 1
        omega
  · rw [hspan]
    exact hpost

theorem Block.fuse_aligned {x y : Block} (hx : x.size % granule = 0) (hy : y.size % granule = 0) :
    (x.fuse y).size % granule = 0 := by
  simp only [Block.fuse, granule, headerSize] at *
  omega

/-- Merging two neighbors replaces them by one block. -/
theorem Lists.join {a : Arena} {pre post : List Block} {x y : Block}
    (h : a.Lists (pre ++ x :: y :: post)) :
    ∃ a', Arena.join ⟨span pre, x.headerIn pre (y :: post)⟩
        ⟨span pre + x.extent, y.headerIn (pre ++ [x]) post⟩ a = .ok (span pre) a' ∧
      a'.Lists (pre ++ x.fuse y :: post) ∧ a.Inside a' := by
  have hsecond := Lists.concat_iff.mpr h
  have hoff := span_concat pre x
  obtain ⟨h1, h2, h3⟩ := h.parts
  obtain ⟨-, -, h5⟩ := hsecond.parts
  have hx : x.extent = headerSize + x.size := rfl
  have hy : y.extent = headerSize + y.size := rfl
  have htop := top_lt h.top_le
  have hspan := h.top_eq
  rw [span_append, span_cons, span_cons] at hspan
  have hnext := hsecond.successorSegment
  rw [hoff] at hnext h5
  have hlast : ¬ ((segments (some (span pre + x.extent)) (span pre + x.extent + y.extent)
      post).head?.isNone ∧ span pre + x.extent ≠ a.last) := by
    rintro ⟨hnone, hne⟩
    cases post with
    | nil =>
      have hl := hsecond.last_eq
      rw [lastLink_concat, Nat.zero_add, hoff, Option.some.injEq] at hl
      exact hne hl
    | cons q rest => cases hnone
  have hgained : Word.add headerSize (y.headerIn (pre ++ [x]) post).size =
      .ok (headerSize + y.size) := Word.add_eq_ok.mpr ⟨rfl, by rw [Block.headerIn_size]; omega⟩
  have hsize : Word.add (x.headerIn pre (y :: post)).size (headerSize + y.size) =
      .ok (x.fuse y).size := Word.add_eq_ok.mpr ⟨rfl, by rw [Block.headerIn_size]; omega⟩
  have hstops : span pre + (x.fuse y).extent = span pre + x.extent + y.extent := by
    rw [Block.extent_fuse, Nat.add_assoc]
  have hstore : ((x.fuse y).headerIn pre post).Storable := by
    refine Block.storable_header (by simp only [Block.fuse]; omega) ?_ ?_
    · exact lastLink_lt (fun p hp => nomatch hp) (by omega)
    · exact firstLink_lt (by omega)
  obtain ⟨m, hrun, htiled, hout⟩ := linkBack_tiled (span pre) h5 (by omega) (by omega)
  have hm : ∀ i, i < span pre + x.extent + y.extent ∨ a.top ≤ i → m.get i = a.memory.get i :=
    fun i hi => hout i (by omega)
  unfold Arena.join
  rw [run_bind_ok (run_get a)]
  dsimp only
  rw [if_neg (fun hne => hne rfl), hnext, run_bind_ok (run_lift_ok _ _), if_neg hlast,
    run_bind_ok hrun, hgained, run_bind_ok (run_lift_ok _ _), hsize, run_bind_ok (run_lift_ok _ _),
    head?_segments_offset, ← hstops]
  refine ⟨_, rfl, ⟨?_, ?_, ?_, ?_, h.top_le⟩, ⟨rfl, rfl, ?_⟩⟩
  · refine h.tiled_fuse (Heads.congr (heads_store m _ hstore) (Agree.zero _ (by omega))) ?_ ?_ ?_
    · refine (htiled.congr (Agree.store_above m _ ?_)).congr (Agree.zero _ (by omega))
      omega
    · intro i hi
      rw [Memory.get_zero, if_pos (by omega)]
    · intro i hi
      rw [Memory.get_zero, if_neg (by omega), Header.get_store_of_outside _ (by omega),
        hm i (by omega)]
  · rw [h.top_eq, span_append, span_append, span_cons, span_cons, span_cons, Block.extent_fuse,
      Nat.add_assoc]
  · have hl := hsecond.last_eq
    rw [lastLink_append, lastLink_cons, Nat.zero_add, hoff] at hl
    rw [lastLink_append, lastLink_cons, Nat.zero_add, hstops]
    exact lastLink_relink hl
  · apply forall_mem_replace [x, y] [x.fuse y] h.aligned
    intro z hz
    rw [List.mem_singleton] at hz
    subst hz
    exact Block.fuse_aligned (h.aligned x (by simp)) (h.aligned y (by simp))
  · intro i hi
    rw [Memory.get_zero, if_neg (by omega), Header.get_store_of_outside _ (by omega),
      hm i (by omega)]

/-! ## Merging with a neighbor that may be free -/

end Arena

/-- A block with the row behind it, merged with the first block there if that is
free. -/
def mergeAhead (x : Block) : List Block → List Block
  | [] => [x]
  | y :: rest => if y.used then x :: y :: rest else x.fuse y :: rest

/-- A block with the row in front of it, merged with the last block there if that
is free. -/
def mergeBack (pre : List Block) (x : Block) : List Block × Block :=
  match pre.getLast? with
  | none => (pre, x)
  | some p => if p.used then (pre, x) else (pre.dropLast, p.fuse x)

@[simp] theorem mergeBack_concat (pre : List Block) (p x : Block) :
    mergeBack (pre ++ [p]) x = if p.used then (pre ++ [p], x) else (pre, p.fuse x) := by
  unfold mergeBack
  rw [List.getLast?_concat, List.dropLast_concat]

namespace Arena

/-- Merging with what follows. -/
theorem Lists.absorb_next {a : Arena} {pre post : List Block} {x : Block}
    (h : a.Lists (pre ++ x :: post)) :
    ∃ a', Arena.absorb (span pre) (firstLink (span pre + x.extent) post none) a =
        .ok (span pre) a' ∧
      a'.Lists (pre ++ mergeAhead x post) ∧ a.Inside a' := by
  cases post with
  | nil => exact ⟨a, rfl, h, Inside.refl a⟩
  | cons y rest =>
    have hother := (concat_iff.mpr h).read
    rw [span_concat] at hother
    have hx : x.extent = headerSize + x.size := rfl
    rw [firstLink_cons]
    unfold Arena.absorb
    dsimp only
    rw [run_bind_ok (run_get a), h.read, run_bind_ok (run_lift_ok _ _), hother,
      run_bind_ok (run_lift_ok _ _)]
    cases hu : y.used with
    | true =>
      refine ⟨a, ?_, ?_, Inside.refl a⟩
      · rw [if_pos (show (y.headerIn (pre ++ [x]) rest).used = true from hu)]
        rfl
      · rw [mergeAhead, if_pos hu]
        exact h
    | false =>
      have hfree : ¬ (y.headerIn (pre ++ [x]) rest).used = true := by simp [hu]
      have horder : ¬ span pre + x.extent < span pre := by omega
      rw [if_neg hfree, if_neg horder, mergeAhead, if_neg (by simp [hu])]
      exact h.join

/-- Merging with what comes before. -/
theorem Lists.absorb_prev {a : Arena} {pre post : List Block} {x : Block}
    (h : a.Lists (pre ++ x :: post)) :
    ∃ a', Arena.absorb (span pre) (lastLink none 0 pre) a =
        .ok (span (mergeBack pre x).1) a' ∧
      a'.Lists ((mergeBack pre x).1 ++ (mergeBack pre x).2 :: post) ∧ a.Inside a' := by
  rcases List.eq_nil_or_concat pre with rfl | ⟨front, p, rfl⟩
  · exact ⟨a, rfl, h, Inside.refl a⟩
  · rw [List.concat_eq_append] at *
    have hfirst := concat_iff.mp h
    have hoff := span_concat front p
    have hkeep := h.read
    have hp : p.extent = headerSize + p.size := rfl
    rw [lastLink_concat, Nat.zero_add, mergeBack_concat]
    unfold Arena.absorb
    dsimp only
    rw [run_bind_ok (run_get a), hkeep, run_bind_ok (run_lift_ok _ _), hfirst.read,
      run_bind_ok (run_lift_ok _ _)]
    cases hu : p.used with
    | true =>
      refine ⟨a, ?_, ?_, Inside.refl a⟩
      · rw [if_pos (show (p.headerIn front (x :: post)).used = true from hu)]
        rfl
      · exact h
    | false =>
      have hfree : ¬ (p.headerIn front (x :: post)).used = true := by simp [hu]
      have horder : span front < span (front ++ [p]) := by
        rw [hoff]
        simp only [headerSize] at hp
        omega
      rw [if_neg hfree, if_pos horder, hoff]
      exact hfirst.join

/-! ## Free memory that is clear -/

/-- The check of a free segment that is clear finds nothing and changes nothing. -/
theorem checkClear_of_read {a : Arena} {off : Nat} {h : Header} (hr : a.read off = .ok h)
    (hu : h.used = false) (hmax : h.size ≤ Word.maxRequest)
    (hz : ∀ i, off + headerSize ≤ i → i < off + headerSize + h.size → a.memory.get i = 0) :
    Arena.checkClear off a = .ok none a := by
  have hfind : a.memory.findNonzero (off + headerSize) h.size = none :=
    Memory.findNonzero_eq_none_iff.mpr hz
  have hfree : ¬ h.used = true := by simp [hu]
  unfold Arena.checkClear
  rw [run_bind_ok (run_get a), hr, run_bind_ok (run_lift_ok _ _)]
  dsimp only
  rw [if_neg hfree, if_neg (Nat.not_lt.mpr hmax), hfind]
  rfl

theorem checkClear_tooLong {a : Arena} {off : Nat} {h : Header} (hr : a.read off = .ok h)
    (hu : h.used = false) (hlong : Word.maxRequest < h.size) :
    Arena.checkClear off a = .error (.panic .payloadTooLong) a := by
  have hfree : ¬ h.used = true := by simp [hu]
  unfold Arena.checkClear
  rw [run_bind_ok (run_get a), hr, run_bind_ok (run_lift_ok _ _)]
  dsimp only
  rw [if_neg hfree, if_pos hlong]
  rfl

theorem Lists.get_eq_zero {a : Arena} {pre post : List Block} {b : Block}
    (h : a.Lists (pre ++ b :: post)) (hu : b.used = false) (hc : b.Clear) {i : Nat}
    (hi : span pre + headerSize ≤ i) (hj : i < span pre + headerSize + b.size) :
    a.memory.get i = 0 := by
  have hp := h.stands.payload (i - (span pre + headerSize)) (by omega)
  rw [Nat.add_sub_cancel' hi] at hp
  exact hp.trans (hc hu _ (by omega))

theorem Lists.checkClear {a : Arena} {pre post : List Block} {b : Block}
    (h : a.Lists (pre ++ b :: post)) (hu : b.used = false) (hmax : b.size ≤ Word.maxRequest)
    (hc : b.Clear) : Arena.checkClear (span pre) a = .ok none a :=
  checkClear_of_read h.read hu hmax fun _ hi hj => h.get_eq_zero hu hc hi hj

end Arena

/-! ## Free memory that changed -/

/-- The lowest byte of a payload that is not zero. -/
structure Block.Changed (b : Block) (i : Nat) : Prop where
  lt_size : i < b.size
  ne_zero : b.bytes i ≠ 0
  lowest : ∀ j, j < i → b.bytes j = 0

/-- A payload is zero, or it has a lowest byte that is not. -/
theorem Block.zero_or_changed (b : Block) :
    (∀ i, i < b.size → b.bytes i = 0) ∨ ∃ i, b.Changed i := by
  by_cases h : ∃ i, i < b.size ∧ b.bytes i ≠ 0
  · obtain ⟨hlt, hne⟩ := Nat.find_spec h
    refine Or.inr ⟨Nat.find h, hlt, hne, fun j hj => ?_⟩
    have hzero := Nat.find_min h hj
    by_contra hj0
    exact hzero ⟨Nat.lt_trans hj hlt, hj0⟩
  · refine Or.inl fun i hi => ?_
    by_contra hne
    exact h ⟨i, hi, hne⟩

theorem Block.Changed.unique {b : Block} {i j : Nat} (hi : b.Changed i) (hj : b.Changed j) :
    i = j := by
  rcases Nat.lt_trichotomy i j with hlt | heq | hgt
  · exact absurd (hj.lowest i hlt) hi.ne_zero
  · exact heq
  · exact absurd (hi.lowest j hgt) hj.ne_zero

/-- A block after its payload was cleared. -/
def Block.cleared (b : Block) : Block := { b with bytes := fun _ => 0 }

namespace Arena.Lists

variable {a : Arena} {pre post : List Block} {b : Block} {i : Nat}

/-- The search for a changed byte finds the lowest. -/
theorem findNonzero_of_changed (h : a.Lists (pre ++ b :: post)) (hc : b.Changed i) :
    a.memory.findNonzero (span pre + headerSize) b.size = some (span pre + headerSize + i) := by
  have hpayload := h.stands.payload
  have hne : a.memory.get (span pre + headerSize + i) ≠ 0 := by
    rw [hpayload i hc.lt_size]
    exact hc.ne_zero
  have hlt := hc.lt_size
  cases hfind : a.memory.findNonzero (span pre + headerSize) b.size with
  | none => exact absurd (Memory.findNonzero_eq_none_iff.mp hfind _ (by omega) (by omega)) hne
  | some place =>
    obtain ⟨hlow, hhigh, hplace, hbelow⟩ := Memory.findNonzero_eq_some hfind
    rcases Nat.lt_trichotomy place (span pre + headerSize + i) with hless | rfl | hmore
    · -- everything in front of the lowest changed byte is zero
      have hzero := hc.lowest (place - (span pre + headerSize)) (by omega)
      rw [← hpayload _ (by omega), Nat.add_sub_cancel' hlow] at hzero
      exact absurd hzero hplace
    · rfl
    · exact absurd (hbelow _ (by omega) hmore) hne

theorem word_payload_add (h : a.Lists (pre ++ b :: post)) (hi : i < b.size) :
    Word.add (a.addr (span pre + headerSize)) i = .ok (a.payload (span pre) + i) := by
  have hfits := a.window.fits
  have htop := h.top_le
  have hstop := h.stop_le
  have he : b.extent = headerSize + b.size := rfl
  have hstart : a.addr (span pre + headerSize) = _ := h.payload_eq
  exact Word.add_eq_ok.mpr ⟨rfl, by omega⟩

/-- What the check of a changed block comes to. -/
theorem checkClear_eq (h : a.Lists (pre ++ b :: post)) (hu : b.used = false)
    (hmax : b.size ≤ Word.maxRequest) (hc : b.Changed i) :
    Arena.checkClear (span pre) a =
      match b.freedAt with
      | some freedAt =>
        .error (.detected (.useAfterFree (a.payload (span pre) + i) (b.bytes i) freedAt)) a
      | none =>
        .ok (some (a.payload (span pre) + i, b.bytes i))
          { a with memory := a.memory.zero (span pre + headerSize + i) (b.size - i) } := by
  have hfree : ¬ (b.headerIn pre post).used = true := by simp [hu]
  have hplace : span pre + headerSize + i - (span pre + headerSize) = i := by omega
  have hlen : span pre + headerSize + b.size - (span pre + headerSize + i) = b.size - i := by omega
  have hfreed : (b.headerIn pre post).freedAt = b.freedAt := rfl
  unfold Arena.checkClear
  rw [run_bind_ok (run_get _), h.read, run_bind_ok (run_lift_ok _ _)]
  dsimp only
  rw [if_neg hfree, Block.headerIn_size, if_neg (Nat.not_lt.mpr hmax),
    h.findNonzero_of_changed hc]
  dsimp only
  rw [hplace, h.word_payload_add hc.lt_size, run_bind_ok (run_lift_ok _ _), hfreed, hlen,
    h.stands.payload i hc.lt_size]
  cases b.freedAt with
  | some freedAt => rfl
  | none => rfl

/-- A block that was changed from its lowest changed byte on is clear once that part was
cleared. -/
theorem clearFrom (h : a.Lists (pre ++ b :: post)) (hc : b.Changed i) :
    Lists { a with memory := a.memory.zero (span pre + headerSize + i) (b.size - i) }
        (pre ++ b.cleared :: post) ∧
      a.Inside { a with memory := a.memory.zero (span pre + headerSize + i) (b.size - i) } := by
  have he : b.extent = headerSize + b.size := rfl
  have hlt := hc.lt_size
  refine h.overwrite (fun _ => 0) (fun j hj => ?_) fun j hj => ?_
  · rw [Memory.get_zero]
    split
    · rfl
    · rw [h.stands.payload j hj]
      exact hc.lowest j (by omega)
  · rw [Memory.get_zero, if_neg (by omega)]

end Arena.Lists

end GuardedHeap
