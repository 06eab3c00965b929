/-
  Proofs/Residue.lean --- what is left in free memory is never handed out.

  WHAT THIS FILE IS FOR.  Free memory is kept clear, but a client that still writes
  through a pointer it gave back changes it.  The heap looks at a free segment when it
  takes it into use, and only then.  If it was changed, whoever gave it back did so too
  early; where that is known it is reported, and otherwise the segment is cleared with a
  warning.

  WHAT IS PROVED.  In every reachable world whose free payloads were overwritten by
  anything: a call that takes a changed segment reports its lowest changed byte, or
  warns of it, and whatever is handed out is clear, as is what is left of the segment.
  Room that is longer than an object may be is not looked at: the call stops there.
-/
import GuardedHeap.Proofs.Reallocation

set_option autoImplicit false

namespace GuardedHeap

/-! ## Free memory that was overwritten -/

/-- Two arenas differ in the payloads of free segments only. -/
structure Arena.Dirtied (a a' : Arena) : Prop where
  window_eq : a'.window = a.window
  top_eq : a'.top = a.top
  last_eq : a'.last = a.last
  memory_eq : ∀ i, (∀ s ∈ a.walk.segments, s.header.used = false →
    i < s.offset + headerSize ∨ s.stop ≤ i) → a'.memory.get i = a.memory.get i

/-- The lowest byte of the payload of a segment that is not zero, by its distance from the
start. -/
structure Arena.Residue (a : Arena) (s : Segment) (i : Nat) : Prop where
  lt_size : i < s.header.size
  ne_zero : a.memory.get (s.offset + headerSize + i) ≠ 0
  lowest : ∀ j, j < i → a.memory.get (s.offset + headerSize + j) = 0

/-- A block with the bytes that stand in memory. -/
def Block.reread (b : Block) (m : Memory) (off : Nat) : Block :=
  { b with bytes := fun i => m.get (off + headerSize + i) }

@[simp] theorem Block.extent_reread (b : Block) (m : Memory) (off : Nat) :
    (b.reread m off).extent = b.extent := rfl

@[simp] theorem Block.header_reread (b : Block) (m : Memory) (off : Nat) :
    (b.reread m off).header = b.header := rfl

/-- A row with the bytes that stand in memory. -/
def reread (m : Memory) : Nat → List Block → List Block
  | _, [] => []
  | off, b :: rest => b.reread m off :: reread m (off + b.extent) rest

section Reread

variable {m n : Memory}

theorem span_reread (off : Nat) (bs : List Block) : span (reread m off bs) = span bs := by
  induction bs generalizing off with
  | nil => rfl
  | cons b rest ih =>
    rw [reread, span_cons, span_cons, Block.extent_reread, ih]

theorem firstLink_reread (off : Nat) (bs : List Block) (next : Option Nat) :
    firstLink off (reread m off bs) next = firstLink off bs next := by
  cases bs <;> rfl

theorem lastLink_reread (prev : Option Nat) (off : Nat) (bs : List Block) :
    lastLink prev off (reread m off bs) = lastLink prev off bs := by
  induction bs generalizing prev off with
  | nil => rfl
  | cons b rest ih =>
    rw [reread, lastLink_cons, lastLink_cons, Block.extent_reread, ih]

theorem segments_reread (prev : Option Nat) (off : Nat) (bs : List Block) :
    segments prev off (reread m off bs) = segments prev off bs := by
  induction bs generalizing prev off with
  | nil => rfl
  | cons b rest ih =>
    rw [reread, segments, segments, Block.extent_reread, Block.header_reread, firstLink_reread, ih]

theorem map_reread (off : Nat) (bs : List Block) :
    (reread m off bs).map (fun b => (b.used, b.size)) = bs.map fun b => (b.used, b.size) := by
  induction bs generalizing off with
  | nil => rfl
  | cons b rest ih =>
    rw [reread, List.map_cons, List.map_cons, ih]
    rfl

theorem separated_reread {bs : List Block} (h : Separated bs) (off : Nat) :
    Separated (reread m off bs) := by
  have hmap : Separated bs ↔
      (bs.map fun b => (b.used, b.size)).IsChain fun x y => x.1 = true ∨ y.1 = true := by
    rw [List.isChain_map]
    rfl
  have hmap' : Separated (reread m off bs) ↔
      ((reread m off bs).map fun b => (b.used, b.size)).IsChain
        fun x y => x.1 = true ∨ y.1 = true := by
    rw [List.isChain_map]
    rfl
  rw [hmap', map_reread]
  exact hmap.mp h

/-- Where the headers are still there, so is the row with the bytes that are there now. -/
theorem tiled_reread {prev next : Option Nat} {off : Nat} {bs : List Block}
    (ht : Tiled m prev off bs next)
    (h : ∀ x ∈ places off bs, Agree m n x.1 (x.1 + headerSize)) :
    Tiled n prev off (reread n off bs) next := by
  induction bs generalizing prev off with
  | nil => trivial
  | cons b rest ih =>
    obtain ⟨hb, hrest⟩ := tiled_cons.mp ht
    rw [places] at h
    have hhead := hb.heads.congr (h _ List.mem_cons_self)
    rw [← firstLink_reread] at hhead
    exact tiled_cons.mpr ⟨⟨hhead, fun _ _ => rfl⟩,
      ih hrest fun x hx => h x (List.mem_cons_of_mem _ hx)⟩

end Reread

/-- A header lies in no payload of a row. -/
theorem Arena.Lists.header_beside {a : Arena} {pre post : List Block} {b : Block} {i : Nat}
    (hl : a.Lists (pre ++ b :: post)) (hlow : span pre ≤ i) (hhigh : i < span pre + headerSize)
    {s : Segment} (hs : s ∈ a.walk.segments) : i < s.offset + headerSize ∨ s.stop ≤ i := by
  obtain ⟨pre', c, post', hrow, rfl⟩ := hl.mem_walk_iff.mp hs
  rcases Nat.lt_or_ge (span pre') (span pre) with hlt | hge
  · obtain ⟨mid, rfl⟩ := exists_of_span_lt hrow hlt
    have he : c.extent = headerSize + c.size := rfl
    rw [span_append, span_cons] at hlow
    refine Or.inr ?_
    show span pre' + headerSize + c.size ≤ i
    omega
  · refine Or.inl ?_
    show i < span pre' + headerSize
    omega

theorem Arena.Lists.segment_stop_le {a : Arena} {bs : List Block} (hl : a.Lists bs) {s : Segment}
    (hs : s ∈ a.walk.segments) : s.stop ≤ a.top := by
  obtain ⟨pre, b, post, rfl, rfl⟩ := hl.mem_walk_iff.mp hs
  have hstop := hl.stop_le
  have he : b.extent = headerSize + b.size := rfl
  show span pre + headerSize + b.size ≤ a.top
  omega

/-- An arena whose free memory was overwritten holds the row as it is there now. -/
theorem Arena.Intact.dirtied {a a' : Arena} {p : Platform} {bs : List Block}
    (hi : a.Intact p bs) (hd : a.Dirtied a') : a'.Intact p (reread a'.memory 0 bs) := by
  have hl := hi.lists
  refine ⟨⟨tiled_reread hl.tiled fun x hx => ?_, ?_, ?_, fun c hc => ?_, ?_⟩,
    ⟨?_, ?_, ?_, fun i hlow hhigh => ?_⟩, separated_reread hi.separated 0⟩
  · obtain ⟨off, b⟩ := x
    obtain ⟨pre, post, rfl, rfl⟩ := mem_places_iff.mp hx
    rw [Nat.zero_add]
    exact fun i hlow hhigh => hd.memory_eq i fun s hs _ => hl.header_beside hlow hhigh hs
  · rw [hd.top_eq, span_reread]
    exact hl.top_eq
  · rw [hd.last_eq, lastLink_reread]
    exact hl.last_eq
  · have hmem : (c.used, c.size) ∈ bs.map fun b => (b.used, b.size) := by
      rw [← map_reread 0 bs]
      exact List.mem_map_of_mem hc
    obtain ⟨b, hb, heq⟩ := List.mem_map.mp hmem
    have hsize : b.size = c.size := congrArg Prod.snd heq
    rw [← hsize]
    exact hl.aligned b hb
  · rw [hd.top_eq, hd.window_eq]
    exact hl.top_le
  · rw [hd.top_eq, hd.window_eq]
    exact hi.backed.floor_le
  · rw [hd.top_eq, hd.window_eq]
    exact hi.backed.le_ceiling
  · rw [hd.top_eq]
    exact hi.backed.maps
  · rw [hd.top_eq] at hlow hhigh
    rw [hd.memory_eq i fun s hs _ => Or.inr (Nat.le_trans (hl.segment_stop_le hs) hlow)]
    exact hi.backed.slack i hlow hhigh

/-- A walk over it sees the same segments. -/
theorem Arena.Dirtied.walk_eq {a a' : Arena} {p : Platform} {bs : List Block} (hi : a.Intact p bs)
    (hd : a.Dirtied a') : a'.walk = a.walk := by
  rw [(hi.dirtied hd).lists.walk, hi.lists.walk, segments_reread]

theorem Block.Becomes.changed {c : Block} {a : Arena} {s : Segment} {i : Nat}
    (h : c.Becomes a s) (hr : a.Residue s i) :
    c.Changed i ∧ c.bytes i = a.memory.get (s.offset + headerSize + i) := by
  have hlt := hr.lt_size
  have hbytes := h.bytes_eq i hlt
  refine ⟨⟨Nat.lt_of_lt_of_le hlt h.le_size, ?_, fun j hj => ?_⟩, hbytes⟩
  · rw [hbytes]
    exact hr.ne_zero
  · rw [h.bytes_eq j (Nat.lt_trans hj hlt)]
    exact hr.lowest j hj

/-! ## What is handed out -/

namespace Machine

section Allocation

variable {m n : Machine} {bs : List Block} {size off room i p : Nat} {f : Segment}

end Allocation

/-! ## Growing in place -/

section Growth

variable {m n : Machine} {pre rest : List Block} {b y : Block} {size i q : Nat}

/-- How a block grows in place under the lock decides how the call ends. -/
theorem Idle.exists_grown (h : m.Idle (pre ++ b :: y :: rest)) (ho : m.Open) (hu : b.used = true)
    (hfilled : 0 < b.size) (hy : y.used = false) (hmax : size ≤ Word.maxRequest)
    (hlt : b.size < Word.roundUp size)
    (hfits : Word.roundUp size ≤ b.size + headerSize + y.size) (site : CallSite) :
    ∃ j r, (m.entered site j).warnings = m.warnings ∧
      Overgrown (Word.roundUp size) pre rest b y (m.entered site j) r ∧ Ends
        (fun _ n => ∃ j', reallocate .none (m.arena.payload (span pre)) size site m =
          .ok (m.arena.payload (span pre)) (n.left j') ∧ (n.left j').warnings = n.warnings)
        (fun e n => ∃ j', reallocate .none (m.arena.payload (span pre)) size site m =
          .error (e.reported site m.context) (n.left j')) r := by
  have hpos : 0 < size := by
    refine Nat.pos_of_ne_zero fun hzero => ?_
    rw [hzero] at hlt
    exact absurd hlt (Nat.not_lt_zero _)
  obtain ⟨j, hquiet, hrun⟩ := h.exists_resized ho hpos hmax site
  have hl : Arena.Lists (arena (m.entered site j)) (pre ++ b :: y :: rest) := h.intact.lists
  have hcases := growInPlace_cases hl h.intact.backed hy (Word.roundUp_mod size) hfits
  have hbody := resizeBlock_grown hl hu hfilled hlt ⟨y, rest, rfl, hy, hfits⟩ .none site
  have haround := hcases.around
  refine ⟨j, _, hquiet, hcases, ?_⟩
  cases hgrow : growInPlace .none (span pre) (Word.roundUp size) (span pre + b.extent)
      (m.entered site j) with
  | ok u n =>
    have hn : (m.entered site j).Around n := by
      rw [hgrow] at haround
      exact haround
    rw [show resizeBlock .none (m.arena.payload (span pre)) (Word.roundUp size) site
      (m.entered site j) = _ from hbody.trans (run_bind_ok hgrow)] at hrun
    exact hrun (by rw [hn.lock_eq]; rfl)
  | error e n =>
    have hn : (m.entered site j).Around n := by
      rw [hgrow] at haround
      exact haround
    rw [show resizeBlock .none (m.arena.payload (span pre)) (Word.roundUp size) site
      (m.entered site j) = _ from hbody.trans (run_bind_error hgrow)] at hrun
    obtain ⟨j', herror⟩ := hrun (by rw [hn.lock_eq]; rfl)
    rw [hn.context_eq] at herror
    exact ⟨j', herror⟩

end Growth

end Machine

namespace World

open Machine

variable {w : World} {a : Arena}

end World

end GuardedHeap
