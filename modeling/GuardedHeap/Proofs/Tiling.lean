/-
  Proofs/Tiling.lean --- memory as a row of blocks.

  WHAT THIS FILE IS FOR.  An undamaged heap is a row of blocks without gaps.  A
  `Block` is a segment without its place: what its header says beside the links,
  and the bytes of its payload.  Offsets and links follow from the row, so a row
  of blocks cannot be linked wrongly.  `Tiled` says that a memory holds a row of
  blocks from an offset on, `Arena.Lists` that it is the whole arena.

  WHAT IS PROVED.  A tiling splits wherever the row does, depends on its own
  bytes only, and survives a change of the link back to what lies in front.
-/
import GuardedHeap.Proofs.Effect

set_option autoImplicit false

namespace GuardedHeap

/-- A segment without its place and its neighbors. -/
structure Block where
  used : Bool
  /-- payload bytes -/
  size : Nat
  allocatedAt : Option CallSite
  allocatedBy : Option ContextId
  freedAt : Option CallSite
  /-- the payload, by distance from its start -/
  bytes : Nat → UInt8

namespace Block

/-- Bytes of a block with its header. -/
def extent (b : Block) : Nat := headerSize + b.size

theorem extent_pos (b : Block) : 0 < b.extent :=
  Nat.lt_of_lt_of_le (by decide) (Nat.le_add_right headerSize b.size)

/-- The header of a block between two neighbors. -/
def header (b : Block) (prev next : Option Nat) : Header :=
  ⟨b.used, b.size, prev, next, b.allocatedAt, b.allocatedBy, b.freedAt⟩

@[simp] theorem header_used (b : Block) (prev next : Option Nat) :
    (b.header prev next).used = b.used := rfl

@[simp] theorem header_size (b : Block) (prev next : Option Nat) :
    (b.header prev next).size = b.size := rfl

@[simp] theorem header_prev (b : Block) (prev next : Option Nat) :
    (b.header prev next).prev = prev := rfl

@[simp] theorem header_next (b : Block) (prev next : Option Nat) :
    (b.header prev next).next = next := rfl

/-- A free block that is clear throughout. -/
def Clear (b : Block) : Prop := b.used = false → ∀ i, i < b.size → b.bytes i = 0

end Block

/-! ## Rows of blocks -/

/-- Bytes of a row of blocks. -/
def span : List Block → Nat
  | [] => 0
  | b :: rest => b.extent + span rest

/-- The link to the last block of a row that starts at an offset, with `prev` in
front of it. -/
def lastLink : Option Nat → Nat → List Block → Option Nat
  | prev, _, [] => prev
  | _, off, b :: rest => lastLink (some off) (off + b.extent) rest

/-- The link to the first block of a row that starts at an offset, with `next`
behind it. -/
def firstLink (off : Nat) : List Block → Option Nat → Option Nat
  | [], next => next
  | _ :: _, _ => some off

/-- The blocks of a row with their offsets. -/
def places : Nat → List Block → List (Nat × Block)
  | _, [] => []
  | off, b :: rest => (off, b) :: places (off + b.extent) rest

@[simp] theorem span_nil : span [] = 0 := rfl

@[simp] theorem span_cons (b : Block) (rest : List Block) :
    span (b :: rest) = b.extent + span rest := rfl

@[simp] theorem span_append (xs ys : List Block) : span (xs ++ ys) = span xs + span ys := by
  induction xs with
  | nil => simp
  | cons x xs ih => rw [List.cons_append, span_cons, span_cons, ih, Nat.add_assoc]

theorem span_concat (xs : List Block) (b : Block) : span (xs ++ [b]) = span xs + b.extent := by
  rw [span_append, span_cons, span_nil, Nat.add_zero]

theorem append_inj_of_span {xs ys xs' ys' : List Block} (h : xs ++ ys = xs' ++ ys')
    (hs : span xs = span xs') : xs = xs' ∧ ys = ys' := by
  rcases List.append_eq_append_iff.mp h with ⟨zs, rfl, rfl⟩ | ⟨zs, rfl, rfl⟩
  all_goals
    cases zs with
    | nil => exact ⟨by simp, by simp⟩
    | cons z zs =>
      rw [span_append, span_cons] at hs
      have hpos := z.extent_pos
      omega

@[simp] theorem firstLink_nil (off : Nat) (next : Option Nat) : firstLink off [] next = next := rfl

@[simp] theorem firstLink_cons (off : Nat) (b : Block) (rest : List Block) (next : Option Nat) :
    firstLink off (b :: rest) next = some off := rfl

theorem firstLink_append (off : Nat) (xs ys : List Block) (next : Option Nat) :
    firstLink off (xs ++ ys) next = firstLink off xs (firstLink (off + span xs) ys next) := by
  cases xs with
  | nil => rfl
  | cons x xs => rfl

@[simp] theorem lastLink_nil (prev : Option Nat) (off : Nat) : lastLink prev off [] = prev := rfl

theorem lastLink_cons (prev : Option Nat) (off : Nat) (b : Block) (rest : List Block) :
    lastLink prev off (b :: rest) = lastLink (some off) (off + b.extent) rest := rfl

theorem lastLink_append (prev : Option Nat) (off : Nat) (xs ys : List Block) :
    lastLink prev off (xs ++ ys) = lastLink (lastLink prev off xs) (off + span xs) ys := by
  induction xs generalizing prev off with
  | nil => rfl
  | cons x xs ih =>
    rw [List.cons_append, lastLink_cons, lastLink_cons, ih, span_cons, Nat.add_assoc]

@[simp] theorem lastLink_concat (prev : Option Nat) (off : Nat) (xs : List Block) (x : Block) :
    lastLink prev off (xs ++ [x]) = some (off + span xs) := by
  rw [lastLink_append]
  rfl

theorem places_append (off : Nat) (xs ys : List Block) :
    places off (xs ++ ys) = places off xs ++ places (off + span xs) ys := by
  induction xs generalizing off with
  | nil => rfl
  | cons x xs ih =>
    rw [List.cons_append, places, places, ih, span_cons, Nat.add_assoc, List.cons_append]

/-- A block with its offset cuts the row in two. -/
theorem mem_places_iff {off place : Nat} {b : Block} {bs : List Block} :
    (place, b) ∈ places off bs ↔
      ∃ pre post, bs = pre ++ b :: post ∧ place = off + span pre := by
  induction bs generalizing off with
  | nil => simp [places]
  | cons x xs ih =>
    rw [places, List.mem_cons, ih]
    constructor
    · rintro (h | ⟨pre, post, rfl, rfl⟩)
      · cases h
        exact ⟨[], xs, rfl, rfl⟩
      · exact ⟨x :: pre, post, rfl, by rw [span_cons, Nat.add_assoc]⟩
    · rintro ⟨pre, post, h, rfl⟩
      cases pre with
      | nil =>
        cases h
        exact Or.inl rfl
      | cons y ys =>
        cases h
        exact Or.inr ⟨ys, post, rfl, by rw [span_cons, Nat.add_assoc]⟩

/-! ## A block in memory -/

/-- Two memories hold the same bytes from `start` up to `stop`. -/
def Agree (m n : Memory) (start stop : Nat) : Prop :=
  ∀ i, start ≤ i → i < stop → n.get i = m.get i

theorem Agree.mono {m n : Memory} {start stop start' stop' : Nat} (h : Agree m n start stop)
    (h1 : start ≤ start') (h2 : stop' ≤ stop) : Agree m n start' stop' :=
  fun i hi hj => h i (by omega) (by omega)

theorem Agree.store_below (m : Memory) {off start stop : Nat} (h : Header) (hs : stop ≤ off) :
    Agree m (Header.store m off h) start stop :=
  fun i _ hi => Header.get_store_of_outside h (Or.inl (by omega))

theorem Agree.store_above (m : Memory) {off start stop : Nat} (h : Header)
    (hs : off + headerSize ≤ start) : Agree m (Header.store m off h) start stop :=
  fun i hi _ => Header.get_store_of_outside h (Or.inr (by omega))

theorem Agree.zero (m : Memory) {off len start stop : Nat}
    (h : stop ≤ off ∨ off + len ≤ start) : Agree m (m.zero off len) start stop := by
  intro i hi hj
  rw [Memory.get_zero, if_neg (by omega)]

/-- A memory holds a header at an offset, guard and all. -/
structure Heads (m : Memory) (off : Nat) (h : Header) : Prop where
  guard_eq : Header.guardAt m off = guardWord
  load_eq : Header.load m off = h

namespace Heads

variable {m n : Memory} {off : Nat} {h : Header}

theorem congr (hh : Heads m off h) (ha : Agree m n off (off + headerSize)) : Heads n off h := by
  simp only [headerSize] at ha
  have hg : Header.guardAt n off = Header.guardAt m off :=
    Header.guardAt_congr fun i h1 h2 => ha i h1 (by omega)
  exact ⟨hg.trans hh.guard_eq, (Header.load_congr ha).trans hh.load_eq⟩

theorem storable (hh : Heads m off h) : h.Storable := by
  rw [← hh.load_eq]
  exact Header.storable_load m off

theorem set_blank (hh : Heads m off h) {d : Nat} (hd : h.Blank d) (b : UInt8) :
    Heads (m.set (off + d) b) off h :=
  ⟨(Header.guardAt_set_of_blank hd b).trans hh.guard_eq,
    (Header.load_set_of_blank (by rwa [hh.load_eq]) b).trans hh.load_eq⟩

end Heads

theorem heads_store (m : Memory) (off : Nat) {h : Header} (hs : h.Storable) :
    Heads (Header.store m off h) off h :=
  ⟨Header.guardAt_store m off h, Header.load_store m off hs⟩

/-- A memory holds a block at an offset, between two neighbors. -/
structure Stands (m : Memory) (off : Nat) (b : Block) (prev next : Option Nat) : Prop where
  heads : Heads m off (b.header prev next)
  payload : ∀ i, i < b.size → m.get (off + headerSize + i) = b.bytes i

theorem Stands.congr {m n : Memory} {off : Nat} {b : Block} {prev next : Option Nat}
    (h : Stands m off b prev next) (ha : Agree m n off (off + b.extent)) :
    Stands n off b prev next := by
  have he : b.extent = headerSize + b.size := rfl
  refine ⟨h.heads.congr (ha.mono (Nat.le_refl _) (by omega)), ?_⟩
  intro i hi
  rw [ha _ (by omega) (by omega)]
  exact h.payload i hi

/-! ## A row in memory -/

/-- A memory holds a row of blocks from an offset on, with links to `prev` in
front of it and `next` behind it. -/
def Tiled (m : Memory) : Option Nat → Nat → List Block → Option Nat → Prop
  | _, _, [], _ => True
  | prev, off, b :: rest, next =>
    Stands m off b prev (firstLink (off + b.extent) rest next) ∧
      Tiled m (some off) (off + b.extent) rest next

@[simp] theorem tiled_nil (m : Memory) (prev : Option Nat) (off : Nat) (next : Option Nat) :
    Tiled m prev off [] next := trivial

theorem tiled_cons {m : Memory} {prev next : Option Nat} {off : Nat} {b : Block}
    {rest : List Block} :
    Tiled m prev off (b :: rest) next ↔
      Stands m off b prev (firstLink (off + b.extent) rest next) ∧
        Tiled m (some off) (off + b.extent) rest next := Iff.rfl

theorem tiled_append {m : Memory} {prev next : Option Nat} {off : Nat} {xs ys : List Block} :
    Tiled m prev off (xs ++ ys) next ↔
      Tiled m prev off xs (firstLink (off + span xs) ys next) ∧
        Tiled m (lastLink prev off xs) (off + span xs) ys next := by
  induction xs generalizing prev off with
  | nil => simp
  | cons x xs ih =>
    rw [List.cons_append, tiled_cons, tiled_cons, ih, firstLink_append, lastLink_cons, span_cons,
      Nat.add_assoc, and_assoc]

theorem Tiled.congr {m n : Memory} {prev next : Option Nat} {off : Nat} {bs : List Block}
    (h : Tiled m prev off bs next) (ha : Agree m n off (off + span bs)) :
    Tiled n prev off bs next := by
  induction bs generalizing prev off with
  | nil => trivial
  | cons b rest ih =>
    rw [span_cons] at ha
    obtain ⟨hb, hrest⟩ := tiled_cons.mp h
    exact tiled_cons.mpr ⟨hb.congr (ha.mono (Nat.le_refl _) (by omega)),
      ih hrest (ha.mono (by omega) (by omega))⟩

/-- A row takes another link back when its first header does. -/
theorem Tiled.relink {m n : Memory} {prev prev' next : Option Nat} {off : Nat} {b : Block}
    {rest : List Block} (h : Tiled m prev off (b :: rest) next)
    (hh : Heads n off (b.header prev' (firstLink (off + b.extent) rest next)))
    (ha : Agree m n (off + headerSize) (off + span (b :: rest))) :
    Tiled n prev' off (b :: rest) next := by
  have he : b.extent = headerSize + b.size := rfl
  rw [span_cons] at ha
  obtain ⟨hb, hrest⟩ := tiled_cons.mp h
  refine tiled_cons.mpr ⟨⟨hh, ?_⟩, hrest.congr (ha.mono (by omega) (by omega))⟩
  intro i hi
  rw [ha _ (by omega) (by omega)]
  exact hb.payload i hi

theorem Tiled.stands {m : Memory} {prev next : Option Nat} {off : Nat} {pre post : List Block}
    {b : Block} (h : Tiled m prev off (pre ++ b :: post) next) :
    Stands m (off + span pre) b (lastLink prev off pre)
      (firstLink (off + span pre + b.extent) post next) :=
  (tiled_cons.mp (tiled_append.mp h).2).1

/-- A row stands whatever the bytes are that have no value in one of its headers. -/
theorem Tiled.set_blank {m : Memory} {prev next : Option Nat} {off d : Nat}
    {pre post : List Block} {b : Block} (h : Tiled m prev off (pre ++ b :: post) next)
    (hd : (b.header (lastLink prev off pre)
      (firstLink (off + span pre + b.extent) post next)).Blank d) (byte : UInt8) :
    Tiled (m.set (off + span pre + d) byte) prev off (pre ++ b :: post) next := by
  have hlt := hd.lt_headerSize
  have he : b.extent = headerSize + b.size := rfl
  have hbeside (start stop : Nat)
      (h : stop ≤ off + span pre ∨ off + span pre + headerSize ≤ start) :
      Agree m (m.set (off + span pre + d) byte) start stop := by
    intro i h1 h2
    rw [Memory.get_set, if_neg (by omega)]
  obtain ⟨hpre, hrest⟩ := tiled_append.mp h
  obtain ⟨hb, hpost⟩ := tiled_cons.mp hrest
  refine tiled_append.mpr ⟨hpre.congr (hbeside _ _ (.inl (Nat.le_refl _))), tiled_cons.mpr
    ⟨⟨hb.heads.set_blank hd byte, fun i hi => ?_⟩, hpost.congr (hbeside _ _ (.inr (by omega)))⟩⟩
  rw [hbeside _ (off + span pre + b.extent) (.inr (Nat.le_refl _)) _ (by omega) (by omega)]
  exact hb.payload i hi

/-! ## The whole arena -/

/-- An arena holds exactly a row of blocks: it tiles the window up to the top,
ends at the recorded last segment, and keeps to the granule. -/
structure Arena.Lists (a : Arena) (bs : List Block) : Prop where
  tiled : Tiled a.memory none 0 bs none
  top_eq : a.top = span bs
  last_eq : lastLink none 0 bs = some a.last
  aligned : ∀ b ∈ bs, b.size % granule = 0
  top_le : a.top ≤ a.window.ceiling

theorem span_aligned {bs : List Block} (h : ∀ b ∈ bs, b.size % granule = 0) :
    span bs % granule = 0 := by
  induction bs with
  | nil => rfl
  | cons b rest ih =>
    have hb := h b List.mem_cons_self
    have hrest := ih fun x hx => h x (List.mem_cons_of_mem b hx)
    simp only [span_cons, Block.extent, granule, headerSize] at *
    omega

end GuardedHeap
