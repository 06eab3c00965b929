/-
  Proofs/Placement.lean --- finding and making room.

  WHAT THIS FILE IS FOR.  A block goes into the first free block that is large
  enough; where there is none, room is made at the end of the row, by stretching
  a free last block or by appending one.  Room that was found is checked for bytes
  that changed since it was freed.  Then it is taken into use: it is split if enough
  is left over, and stamped.

  WHAT IS PROVED.  Whatever free memory holds, placing a block returns, or the room
  was changed and it is known who freed it, or it is longer than an object may be, or
  the new top would not fit below the reserved maximum, or the frames run out; nothing
  else happens.  In a sound heap no room was changed; when placing returns the heap is
  sound, and its live blocks are those there were and the new one.  A refusal for the
  maximum changes nothing; when the frames run out the row still stands, below a top
  that may have moved up.
-/
import GuardedHeap.Proofs.Records
import GuardedHeap.Proofs.Sound
import GuardedHeap.Proofs.Lines

set_option autoImplicit false

namespace GuardedHeap

/-! ## Room at the end of a row -/

/-- A fresh free block. -/
def Block.fresh (size : Nat) : Block := ⟨false, size, none, none, none, fun _ => 0⟩

/-- A free block at the end of a row, stretched to a new size: what comes with it is
clear. -/
def Block.stretched (b : Block) (size : Nat) : Block :=
  { b with size := size, bytes := fun i => if i < b.size then b.bytes i else 0 }

/-- Room for `size` bytes at the end of a row: the row as it goes on, and the
free block behind it. -/
inductive Grown (size : Nat) : List Block → List Block → Block → Prop
  /-- a free last block is stretched -/
  | stretched {pre : List Block} {b : Block} (hb : b.used = false) :
      Grown size (pre ++ [b]) pre (b.stretched size)
  /-- a used last block gets a successor -/
  | appended {bs : List Block} (hne : bs ≠ []) (hu : EndsUsed bs) :
      Grown size bs bs (Block.fresh size)

theorem exists_grown (size : Nat) {bs : List Block} (h : bs ≠ []) :
    ∃ pre c, Grown size bs pre c := by
  rcases List.eq_nil_or_concat bs with rfl | ⟨pre, b, rfl⟩
  · exact absurd rfl h
  · rw [List.concat_eq_append] at *
    cases hb : b.used with
    | false => exact ⟨pre, _, .stretched hb⟩
    | true => exact ⟨pre ++ [b], _, .appended h ((endsUsed_concat pre b).mpr hb)⟩

namespace Grown

variable {size : Nat} {bs pre : List Block} {c : Block}

theorem used_eq (h : Grown size bs pre c) : c.used = false := by
  cases h with
  | stretched hb => exact hb
  | appended hne hu => rfl

theorem size_eq (h : Grown size bs pre c) : c.size = size := by
  cases h <;> rfl

theorem clear (h : Grown size bs pre c) (hclear : ∀ x ∈ bs, x.Clear) : c.Clear := by
  cases h with
  | stretched hb =>
    intro _ i _
    simp only [Block.stretched]
    split
    · exact hclear _ (by simp) hb i (by assumption)
    · rfl
  | appended hne hu => exact fun _ _ _ => rfl

theorem separated (h : Grown size bs pre c) (hs : Separated bs) :
    Separated pre ∧ EndsUsed pre := by
  cases h with
  | stretched hb => exact ((separated_free hb).mp hs).1
  | appended hne hu => exact ⟨hs, hu⟩

theorem live_eq (h : Grown size bs pre c) : live 0 pre = live 0 bs := by
  cases h with
  | stretched hb => rw [live_append, live_cons_free hb, live_nil, List.append_nil]
  | appended hne hu => rfl

theorem mem_of_mem (h : Grown size bs pre c) : ∀ z ∈ pre, z ∈ bs := by
  cases h with
  | stretched hb => exact fun z hz => List.mem_append_left _ hz
  | appended hne hu => exact fun z hz => hz

end Grown

/-- Which room is made behind a row is decided by its last block. -/
theorem grown_concat {size : Nat} {front pre : List Block} {l c : Block}
    (h : Grown size (front ++ [l]) pre c) :
    (l.used = false ∧ pre = front ∧ c = l.stretched size) ∨
      (l.used = true ∧ pre = front ++ [l] ∧ c = Block.fresh size) := by
  obtain ⟨bs, hbs⟩ : ∃ bs, bs = front ++ [l] := ⟨_, rfl⟩
  rw [← hbs] at h
  cases h with
  | stretched hb =>
    obtain ⟨rfl, hlast⟩ := List.append_inj' hbs rfl
    cases hlast
    exact Or.inl ⟨hb, rfl, rfl⟩
  | appended hne hu =>
    rw [hbs, endsUsed_concat] at hu
    exact Or.inr ⟨hu, hbs, rfl⟩

namespace Arena

/-! ## The end of a row in memory -/

/-- A free last block takes a larger size once the top has moved up. -/
theorem Lists.stretch {a a' : Arena} {pre : List Block} {b : Block} {size : Nat}
    (h : a.Lists (pre ++ [b])) (hg : size % granule = 0) (hl : a'.last = a.last)
    (hm : Agree a.memory a'.memory 0 a.top) (htop : a'.top = span pre + headerSize + size)
    (hle : a'.top ≤ a'.window.ceiling)
    (hz : ∀ i, a.top ≤ i → i < a'.top → a'.memory.get i = 0) :
    Lists
        { a' with
          memory := Header.store a'.memory (span pre) ((b.stretched size).headerIn pre []) }
        (pre ++ [b.stretched size]) ∧
      a'.Inside
        { a' with
          memory := Header.store a'.memory (span pre) ((b.stretched size).headerIn pre []) } := by
  obtain ⟨h1, h2, -⟩ := h.parts
  have he : b.extent = headerSize + b.size := rfl
  have hend : a.top = span pre + b.extent := by
    rw [h.top_eq, span_concat]
  have hlarge := top_lt hle
  have hde : (b.stretched size).extent = headerSize + size := rfl
  refine ⟨⟨?_, ?_, ?_, ?_, hle⟩, ⟨rfl, rfl, ?_⟩⟩
  · refine tiled_concat_store (h1.congr (hm.mono (Nat.le_refl _) (by omega))) (by omega) ?_
    intro i hi
    have hi' : i < size := hi
    simp only [Block.stretched]
    by_cases hold : i < b.size
    · rw [if_pos hold, hm _ (by omega) (by omega)]
      exact h2.payload i hold
    · rw [if_neg hold]
      exact hz _ (by omega) (by omega)
  · show a'.top = _
    rw [htop, span_append, span_cons, span_nil]
    simp only [Block.extent, Block.stretched]
    omega
  · show _ = some a'.last
    rw [lastLink_concat, Nat.zero_add, hl]
    exact congrArg some h.last_concat.symm
  · exact List.forall_mem_append.mpr
      ⟨fun x hx => h.aligned x (List.mem_append_left _ hx), List.forall_mem_singleton.mpr hg⟩
  · intro i hi
    exact Header.get_store_of_outside _ (Or.inr (by omega))

/-- A used last block gets a free successor once the top has moved up. -/
theorem Lists.appendFresh {a a' : Arena} {pre : List Block} {b : Block} {size : Nat}
    (h : a.Lists (pre ++ [b])) (hg : size % granule = 0)
    (hm : Agree a.memory a'.memory 0 a.top)
    (htop : a'.top = a.top + headerSize + size) (hle : a'.top ≤ a'.window.ceiling)
    (hz : ∀ i, a.top ≤ i → i < a'.top → a'.memory.get i = 0) :
    Lists
        { a' with
          memory := Header.store
            (Header.store a'.memory a.top (Header.free (some (span pre)) none size))
            (span pre) (b.headerIn pre [Block.fresh size])
          last := a.top }
        (pre ++ [b] ++ [Block.fresh size]) ∧
      a'.Inside
        { a' with
          memory := Header.store
            (Header.store a'.memory a.top (Header.free (some (span pre)) none size))
            (span pre) (b.headerIn pre [Block.fresh size])
          last := a.top } := by
  obtain ⟨h1, h2, -⟩ := h.parts
  have he : b.extent = headerSize + b.size := rfl
  have hend : a.top = span pre + b.extent := by
    rw [h.top_eq, span_concat]
  have hlarge := top_lt hle
  have hspan : span (pre ++ [b]) = a.top := h.top_eq.symm
  have hfree : (Header.free (some (span pre)) none size).Storable := by
    refine ⟨?_, ?_, fun p hp => nomatch hp⟩
    · show size < 2 ^ 64
      omega
    · intro p hp
      cases hp
      omega
  have hstore : (b.headerIn pre [Block.fresh size]).Storable := by
    refine Block.storable_header (by omega) (lastLink_lt (fun p hp => nomatch hp) (by omega)) ?_
    intro p hp
    cases hp
    omega
  refine ⟨⟨?_, ?_, ?_, ?_, hle⟩, ⟨rfl, rfl, ?_⟩⟩
  · rw [List.append_assoc, List.singleton_append]
    refine tiled_of_parts (((h1.congr (hm.mono (Nat.le_refl _) (by omega))).congr
      (Agree.store_below _ _ (by omega))).congr (Agree.store_below _ _ (by omega)))
      (tiled_cons.mpr ⟨⟨heads_store _ _ hstore, ?_⟩,
        tiled_cons.mpr ⟨⟨?_, ?_⟩, trivial⟩⟩)
    · intro i hi
      rw [Header.get_store_of_outside _ (by omega), Header.get_store_of_outside _ (by omega),
        hm _ (by omega) (by omega)]
      exact h2.payload i hi
    · rw [← hend]
      exact (heads_store _ _ hfree).congr (Agree.store_above _ _ (by omega))
    · intro i hi
      have hi' : i < size := hi
      rw [← hend, Header.get_store_of_outside _ (by omega),
        Header.get_store_of_outside _ (by omega)]
      exact hz _ (by omega) (by omega)
  · show a'.top = _
    rw [htop, span_append, hspan, span_cons, span_nil]
    simp only [Block.extent, Block.fresh]
    omega
  · show _ = some a.top
    rw [lastLink_concat, Nat.zero_add, hspan]
  · exact List.forall_mem_append.mpr ⟨h.aligned, List.forall_mem_singleton.mpr hg⟩
  · intro i hi
    show (Header.store (Header.store _ _ _) _ _).get i = _
    rw [Header.get_store_of_outside _ (Or.inr (by omega)),
      Header.get_store_of_outside _ (Or.inr (by omega))]

end Arena

namespace Machine

/-! ## Making room -/

theorem saturatingAdd_le_iff {x y z : Nat} (hz : z < Word.largest) :
    Word.saturatingAdd x y ≤ z ↔ x + y ≤ z := by
  unfold Word.saturatingAdd
  omega

theorem saturatingAdd_eq {x y z : Nat} (hz : z < Word.largest) (h : x + y ≤ z) :
    Word.saturatingAdd x y = x + y := by
  unfold Word.saturatingAdd
  omega

theorem ceiling_lt_largest (w : Window) : w.ceiling < Word.largest := by
  have hfits := w.fits
  have hpos := w.base_pos
  unfold Word.largest
  omega

/-- The new top is the end of the grown row, unless that does not fit below the
reserved maximum; then the new top does not fit either. -/
theorem topFor_grown {a : Arena} {front pre : List Block} {l c : Block} {size : Nat}
    (hl : a.Lists (front ++ [l])) (hnone : ¬ l.Fits size) (hg : Grown size (front ++ [l]) pre c) :
    (topFor a.top size (l.headerIn front []) ≤ a.window.ceiling ↔
        span (pre ++ [c]) ≤ a.window.ceiling) ∧
      (span (pre ++ [c]) ≤ a.window.ceiling →
        topFor a.top size (l.headerIn front []) = span (pre ++ [c])) := by
  have hz := ceiling_lt_largest a.window
  have htop := hl.top_eq
  rcases grown_concat hg with ⟨hb, rfl, rfl⟩ | ⟨hb, rfl, rfl⟩
  · have hlarge : l.size < size := Nat.lt_of_not_le fun hle => hnone ⟨hb, hle⟩
    have hused : ¬ (l.headerIn pre []).used = true := by simp [hb]
    have hspan : span (pre ++ [l.stretched size]) = a.top + (size - l.size) := by
      rw [htop, span_append, span_append, span_cons, span_cons, span_nil]
      simp only [Block.extent, Block.stretched]
      omega
    rw [topFor, if_neg hused, Block.headerIn_size, hspan]
    exact ⟨saturatingAdd_le_iff hz, saturatingAdd_eq hz⟩
  · have hused : (l.headerIn front []).used = true := hb
    have hspan : span (front ++ [l] ++ [Block.fresh size]) = a.top + headerSize + size := by
      rw [htop, span_append _ [Block.fresh size], span_cons, span_nil]
      simp only [Block.extent, Block.fresh]
      omega
    rw [topFor, if_pos hused, hspan]
    refine ⟨⟨?_, ?_⟩, ?_⟩
    · intro h
      have h1 := (saturatingAdd_le_iff hz).mp h
      have h2 : Word.saturatingAdd a.top headerSize ≤ a.window.ceiling := by omega
      rwa [saturatingAdd_eq hz ((saturatingAdd_le_iff hz).mp h2)] at h1
    · intro h
      rw [saturatingAdd_eq hz (Nat.le_trans (Nat.le_add_right _ _) h)]
      exact (saturatingAdd_le_iff hz).mpr h
    · intro h
      rw [saturatingAdd_eq hz (Nat.le_trans (Nat.le_add_right _ _) h)]
      exact saturatingAdd_eq hz h

/-- Making room never takes the top down. -/
theorem top_le_grown {a : Arena} {front pre : List Block} {l c : Block} {size : Nat}
    (hl : a.Lists (front ++ [l])) (hnone : ¬ l.Fits size) (hg : Grown size (front ++ [l]) pre c) :
    a.top ≤ span (pre ++ [c]) := by
  rw [hl.top_eq]
  rcases grown_concat hg with ⟨hb, rfl, rfl⟩ | ⟨hb, rfl, rfl⟩
  · have hlarge : l.size < size := Nat.lt_of_not_le fun hle => hnone ⟨hb, hle⟩
    rw [span_append, span_append, span_cons, span_cons, span_nil]
    simp only [Block.extent, Block.stretched]
    omega
  · rw [span_append _ [Block.fresh size]]
    exact Nat.le_add_right _ _

/-- How an attempt to make room at the end of a row ends. -/
inductive Extended (size : Nat) (bs : List Block) (m : Machine) :
    EStateM.Result Fault Machine Nat → Prop
  /-- the row ends with room for `size` bytes -/
  | done {m' : Machine} {pre : List Block} {c : Block} (hg : Grown size bs pre c)
      (affords : m.Affords (span (pre ++ [c]))) (lists : m'.arena.Lists (pre ++ [c]))
      (backed : m'.arena.Backed m'.platform) (around : m.Around m') :
      Extended size bs m (.ok (span pre) m')
  /-- the row would not fit below the reserved maximum; nothing changed -/
  | ceiling {requested : Nat} {pre : List Block} {c : Block} (hg : Grown size bs pre c)
      (above : m.arena.window.ceiling < span (pre ++ [c])) :
      Extended size bs m
        (.error
          (.detected (.ceilingReached requested m.arena.top m.arena.window.ceiling
            (payloadOf true bs) (countOf true bs))) m)
  /-- the frames ran out on the way up -/
  | frames {m' : Machine} {pre : List Block} {c : Block} (hg : Grown size bs pre c)
      (below : span (pre ++ [c]) ≤ m.arena.window.ceiling)
      (short : m.platform.frames.length <
        pagesBelow (span (pre ++ [c])) - pagesBelow m.arena.top)
      (refused : m.Refused (span (pre ++ [c])) m') :
      Extended size bs m
        (.error (.detected (.outOfFrames (m.pageNumber (pagesBelow m'.arena.top)))) m')

/-- Once the top has moved up to where the grown row ends, the headers at the end of the
row make it that row. -/
theorem extended_of_topMoved {m m' : Machine} {front pre : List Block} {l c : Block} {size : Nat}
    (hs : m.arena.Intact m.platform (front ++ [l])) (hgran : size % granule = 0)
    (hfit : ¬ l.Fits size) (hg : Grown size (front ++ [l]) pre c) (hm : m.TopMoved m')
    (htop : m'.arena.top = span (pre ++ [c])) (ha : m.Affords (span (pre ++ [c]))) :
    Extended size (front ++ [l]) m
      ((if (l.headerIn front []).used = true then do
          onArena do
            Arena.writeHeader m.arena.top (Header.free (some (span front)) none size)
            Arena.writeHeader (span front) { l.headerIn front [] with next := some m.arena.top }
            Arena.setLast m.arena.top
          return m.arena.top
        else do
          onArena (Arena.writeHeader (span front) { l.headerIn front [] with size := size })
          return span front : HeapM Nat) m') := by
  have hl := hs.lists
  have hup := top_le_grown hl hfit hg
  have hagree : Agree m.arena.memory m'.arena.memory 0 m.arena.top :=
    hm.below.mono (Nat.le_refl _) (by omega)
  have hzero : ∀ i, m.arena.top ≤ i → i < m'.arena.top → m'.arena.memory.get i = 0 :=
    fun i h1 h2 => hm.clear i (by omega) (Nat.lt_of_lt_of_le h2 (top_le_pages _))
  have hle : m'.arena.top ≤ m'.arena.window.ceiling := by
    rw [hm.repaged.beside.window_eq]
    exact hm.le_ceiling
  rcases grown_concat hg with ⟨hu, rfl, rfl⟩ | ⟨hu, rfl, rfl⟩
  · have hused : ¬ (l.headerIn pre []).used = true := by simp [hu]
    have hend : m'.arena.top = span pre + headerSize + size := by
      rw [htop, span_append, span_cons, span_nil]
      simp only [Block.extent, Block.stretched]
      omega
    obtain ⟨hlists, hin⟩ := hl.stretch hgran hm.repaged.beside.last_eq hagree hend hle hzero
    rw [if_neg hused]
    exact .done hg ha hlists ((hm.backed hs.backed).inside hin)
      (hm.repaged.beside.toAround.trans (around_onArena hin))
  · have hused : (l.headerIn front []).used = true := hu
    have hend : m'.arena.top = m.arena.top + headerSize + size := by
      rw [htop, span_append _ [Block.fresh size], span_cons, span_nil, hl.top_eq]
      simp only [Block.extent, Block.fresh]
      omega
    have hlink : { l.headerIn front [] with next := some m.arena.top } =
        l.headerIn front [Block.fresh size] := by
      rw [hl.top_eq, span_concat]
      rfl
    obtain ⟨hlists, hin⟩ := hl.appendFresh hgran hagree hend hle hzero
    rw [if_pos hused, hlink, hl.top_eq]
    rw [hl.top_eq] at hlists hin
    exact .done hg ha hlists ((hm.backed hs.backed).inside hin)
      (hm.repaged.beside.toAround.trans (around_onArena hin))

/-- Making room where nothing fits. -/
theorem extend_cases {m : Machine} {bs : List Block} {size : Nat}
    (hs : m.arena.Intact m.platform bs) (hgran : size % granule = 0)
    (hnone : ∀ x ∈ bs, ¬ x.Fits size) : Extended size bs m (extend .none size m) := by
  obtain ⟨front, l, rfl⟩ : ∃ front l, bs = front ++ [l] :=
    ⟨_, _, (List.dropLast_append_getLast hs.lists.ne_nil).symm⟩
  obtain ⟨pre, c, hg⟩ := exists_grown size hs.lists.ne_nil
  have hl := hs.lists
  have hfit : ¬ l.Fits size := hnone l (by simp)
  obtain ⟨hadmits, hnew⟩ := topFor_grown hl hfit hg
  have hneeded : (!(l.headerIn front []).used && decide (size ≤ (l.headerIn front []).size)) =
      false := by
    rw [Block.headerIn_used, Block.headerIn_size]
    cases hu : l.used with
    | true => rfl
    | false => exact decide_eq_false fun hle => hfit ⟨hu, hle⟩
  unfold extend
  rw [run_bind_ok (run_get m)]
  dsimp only
  rw [hl.last_concat, hl.read, run_bind_ok (run_lift_ok _ _), hneeded]
  rw [if_neg Bool.false_ne_true]
  by_cases habove : m.arena.window.ceiling < span (pre ++ [c])
  · have hrefuse : m.arena.admits (topFor m.arena.top size (l.headerIn front [])) = false :=
      decide_eq_false fun h => Nat.not_le.mpr habove (hadmits.mp h)
    have hused : ((Totals.start m.arena).over (front ++ [l])).usedBytes =
        payloadOf true (front ++ [l]) := Nat.zero_add _
    have hblocks : ((Totals.start m.arena).over (front ++ [l])).usedBlocks =
        countOf true (front ++ [l]) := Nat.zero_add _
    rw [hrefuse, if_pos (by rfl), hl.totals hs.separated, run_bind_ok (run_lift_ok _ _), hused,
      hblocks]
    exact .ceiling hg habove
  · have hbelow := Nat.le_of_not_lt habove
    have hallowed : m.arena.admits (topFor m.arena.top size (l.headerIn front [])) = true :=
      decide_eq_true (hadmits.mpr hbelow)
    rw [hallowed, if_neg (by simp), hnew hbelow, run_bind_ok (run_log _ m)]
    have hup := top_le_grown hl hfit hg
    obtain ⟨j, hj⟩ : ∃ j, j = m.journal.push
      (.growTop (m.arena.addr m.arena.top) (m.arena.addr (span (pre ++ [c])))) := ⟨_, rfl⟩
    rw [← hj]
    have hbacked :
        Arena.Backed (arena { m with journal := j }) (platform { m with journal := j }) :=
      hs.backed
    have hfloor := Nat.le_trans hs.backed.floor_le hup
    have hframes := ends_moveTop_frames hbacked hfloor hbelow
    rcases moveTop_cases hbacked hfloor hbelow with ⟨m', hrun, htop, hmoved⟩ | ⟨m', hrun, hrefused⟩
    · rw [hrun] at hframes
      rw [run_bind_ok hrun]
      exact extended_of_topMoved hs hgran hfit hg hmoved.of_journal htop ⟨hbelow, hframes⟩
    · rw [hrun] at hframes
      rw [run_bind_error hrun]
      exact .frames hg hbelow hframes hrefused.of_journal

/-! ## What a machine can reach -/

/-- How far up the top can come: the window ends there, or the pages that are mapped and
those that the platform has frames for. -/
def horizon (m : Machine) : Nat :=
  min m.arena.window.ceiling ((pagesBelow m.arena.top + m.platform.frames.length) * pageSize)

theorem Affords.le_horizon {m : Machine} {top : Nat} (h : m.Affords top) : top ≤ m.horizon := by
  have hframes := h.frames
  exact Nat.le_min.mpr ⟨h.le_ceiling, Nat.le_trans (top_le_pages top)
    (Nat.mul_le_mul_right pageSize (by omega))⟩

theorem top_le_horizon {m : Machine} {bs : List Block} (h : m.arena.Lists bs) :
    m.arena.top ≤ m.horizon :=
  Nat.le_min.mpr ⟨h.top_le, Nat.le_trans (top_le_pages _)
    (Nat.mul_le_mul_right pageSize (Nat.le_add_right _ _))⟩

end Machine

/-! ## Finding room -/

/-- Room for `size` bytes in or behind a row: a free block that is large enough,
with what stands on either side of it. -/
inductive Found (size : Nat) (bs : List Block) : List Block → Block → List Block → Prop
  /-- the first block that fits -/
  | fit {pre post : List Block} {c : Block} (hbs : bs = pre ++ c :: post) (hc : c.Fits size)
      (hpre : ∀ x ∈ pre, ¬ x.Fits size) : Found size bs pre c post
  /-- nothing fits, and room was made at the end -/
  | made {pre : List Block} {c : Block} (hnone : ∀ x ∈ bs, ¬ x.Fits size)
      (hg : Grown size bs pre c) : Found size bs pre c []

namespace Found

variable {size floor : Nat} {bs pre post : List Block} {c : Block}

theorem used_eq (h : Found size bs pre c post) : c.used = false := by
  cases h with
  | fit hbs hc hpre => exact hc.1
  | made hnone hg => exact hg.used_eq

theorem le_size (h : Found size bs pre c post) : size ≤ c.size := by
  cases h with
  | fit hbs hc hpre => exact hc.2
  | made hnone hg => exact Nat.le_of_eq hg.size_eq.symm

/-- Room stands in a tidy row. -/
theorem tidy (h : Found size bs pre c post) (ht : Tidy bs) : Tidy (pre ++ c :: post) := by
  cases h with
  | fit hbs hc hpre => exact hbs ▸ ht
  | made hnone hg =>
    refine ⟨(separated_free hg.used_eq).mpr
      ⟨hg.separated ht.separated, List.IsChain.nil, startsUsed_nil⟩, ?_⟩
    intro x hx
    rcases List.mem_append.mp hx with hx | hx
    · exact ht.clear x (hg.mem_of_mem x hx)
    · rw [List.mem_singleton] at hx
      rw [hx]
      exact hg.clear ht.clear

theorem live_eq (h : Found size bs pre c post) : live 0 (pre ++ c :: post) = live 0 bs := by
  cases h with
  | fit hbs hc hpre => rw [hbs]
  | made hnone hg =>
    rw [live_append, live_cons_free hg.used_eq, live_nil, List.append_nil, hg.live_eq]

/-- Room that was found and taken leaves no mark that was not there. -/
theorem marked (h : Found size bs pre c post) {d : Block} {z : Nat × Block}
    (hd : d.used = true) (hde : d.extent = (c.taken size).extent)
    (hz : Marked 0 (pre ++ d :: (c.leftover size ++ post)) z) : Marked 0 bs z := by
  rcases (marked_taken h.le_size hd hde).mp hz with hfront | hbehind
  · cases h with
    | fit hbs hc hpre =>
      rw [hbs]
      exact marked_append.mpr (Or.inl hfront)
    | made hnone hg =>
      cases hg with
      | stretched hb => exact marked_append.mpr (Or.inl hfront)
      | appended hne hu => exact hfront
  · cases h with
    | fit hbs hc hpre =>
      rw [hbs, marked_append, marked_cons]
      exact Or.inr (Or.inr hbehind)
    | made hnone hg => exact absurd hbehind not_marked_nil

/-- Taking room that was found keeps a row in order. -/
theorem orderly (h : Found size bs pre c post) (ho : Orderly floor bs) {d : Block}
    (hd : d.used = true) (hde : d.extent = (c.taken size).extent) :
    Orderly floor (pre ++ d :: (c.leftover size ++ post)) ∧
      live 0 (pre ++ d :: (c.leftover size ++ post)) =
        live 0 pre ++ (span pre, d) :: live (span pre + c.extent) post ∧
      live 0 bs = live 0 pre ++ live (span pre + c.extent) post := by
  rw [← h.live_eq]
  refine orderly_taken (h.tidy ho.toTidy) h.used_eq h.le_size ?_ hd hde
  intro hne
  cases h with
  | fit hbs hc hpre => exact hbs ▸ ho.settled
  | made hnone hg =>
    rcases c.leftover_cases size with ⟨hsplit, -⟩ | ⟨-, hl⟩
    · rw [hg.size_eq] at hsplit
      omega
    · exact absurd (by simp [hl]) hne

theorem perm_live (h : Found size bs pre c post) (ho : Orderly floor bs) {d : Block}
    (hd : d.used = true) (hde : d.extent = (c.taken size).extent) :
    List.Perm (live 0 (pre ++ d :: (c.leftover size ++ post))) ((span pre, d) :: live 0 bs) := by
  obtain ⟨-, hlive, hold⟩ := h.orderly ho hd hde
  rw [hlive, hold]
  exact List.perm_middle

theorem ne_of_mem_live (h : Found size bs pre c post) (ho : Orderly floor bs) {x : Nat × Block}
    (hx : x ∈ live 0 bs) : x.1 ≠ span pre :=
  fst_ne_of_perm (h.perm_live ho (Block.used_taken c size) rfl).symm hx

end Found

/-- There is room for `size` bytes in a row, or the platform has what it takes to make it. -/
def Machine.HasRoom (m : Machine) (size : Nat) (bs : List Block) : Prop :=
  (∃ x ∈ bs, x.Fits size) ∨ ∃ pre c, Grown size bs pre c ∧ m.Affords (span (pre ++ [c]))

theorem Machine.HasRoom.congr {m n : Machine} {size : Nat} {bs : List Block}
    (h : m.HasRoom size bs) (ha : n.arena = m.arena) (hp : n.platform = m.platform) :
    n.HasRoom size bs := by
  refine h.imp_right fun ⟨pre, c, hg, affords⟩ => ⟨pre, c, hg, ?_⟩
  refine ⟨?_, ?_⟩
  · rw [ha]
    exact affords.le_ceiling
  · rw [ha, hp]
    exact affords.frames

/-! ## Placing a block -/

/-- A used block with the mark of who asked for it. -/
def Block.stamped (b : Block) (allocatedAt : Option CallSite) (allocatedBy : Option ContextId) :
    Block :=
  { b with allocatedAt := allocatedAt, allocatedBy := allocatedBy, freedAt := none }

namespace Machine

/-- A new block as it is placed in a free one. -/
def newBlock (m : Machine) (size : Nat) (site : CallSite) (c : Block) : Block :=
  (c.taken size).stamped (if m.tracing then some site else none)
    (if m.tracing then some m.context.id else none)

theorem record_newBlock (m : Machine) (size : Nat) (site : CallSite) (c : Block) :
    (m.newBlock size site c).record = m.stamp site := rfl

theorem clear_newBlock {size : Nat} {bs pre post : List Block} {c : Block} (m : Machine)
    (site : CallSite) (hf : Found size bs pre c post) (ht : Tidy bs) {i : Nat}
    (hi : i < (m.newBlock size site c).size) : (m.newBlock size site c).bytes i = 0 := by
  have hclear : c.Clear := (hf.tidy ht).clear c (by simp)
  show (c.taken size).bytes i = 0
  rw [Block.bytes_taken]
  exact hclear hf.used_eq i (Nat.lt_of_lt_of_le hi (Block.size_taken_le hf.le_size))

theorem run_forM_log {α : Type} (f : α → LogLine) (xs : List α) (m : Machine) :
    ∃ j, (xs.forM fun x => log (f x)) m = .ok ⟨⟩ { m with journal := j } := by
  induction xs generalizing m with
  | nil => exact ⟨m.journal, rfl⟩
  | cons x xs ih =>
    obtain ⟨j, hj⟩ := ih { m with journal := m.journal.push (f x) }
    refine ⟨j, ?_⟩
    rw [List.forM_eq_forM, List.forM_cons, run_bind_ok (run_log (f x) m)]
    exact hj

/-- The search answers what first fit answers, and only logs. -/
theorem search_eq (m : Machine) (size : Nat) :
    ∃ j, search size m = ended (m.arena.firstFit size) { m with journal := j } := by
  obtain ⟨j, hj⟩ := run_forM_log
    (fun s : Segment => LogLine.visited (m.arena.addr s.offset) s.header.size s.header.used)
    (Arena.lookedAt size m.arena.walk.segments) m
  refine ⟨j, ?_⟩
  unfold search
  rw [run_bind_ok (run_get m), run_bind_ok hj]
  cases m.arena.firstFit size with
  | ok r => rfl
  | error e => rfl

theorem run_search {m : Machine} {size : Nat} {r : Option Nat}
    (h : m.arena.firstFit size = .ok r) :
    ∃ j, search size m = .ok r { m with journal := j } := by
  obtain ⟨j, hj⟩ := search_eq m size
  rw [h] at hj
  exact ⟨j, hj⟩

theorem run_search_error {m : Machine} {size : Nat} {e : Fault}
    (h : m.arena.firstFit size = .error e) :
    ∃ j, search size m = .error e { m with journal := j } := by
  obtain ⟨j, hj⟩ := search_eq m size
  rw [h] at hj
  exact ⟨j, hj⟩

/-! ## Whether free memory changed -/

end Machine

/-- A free block passes the check of its payload, which starts at an address: it is clear,
or nobody knows who freed it, and then it is cleared with a warning. -/
inductive Block.Passes (b : Block) (payload : Nat) : Block → List LogLine → Prop
  | clear (h : ∀ i, i < b.size → b.bytes i = 0) : Passes b payload b []
  | cleared {i : Nat} (h : b.Changed i) (hn : b.freedAt = none) :
      Passes b payload b.cleared [.notZero (payload + i) (b.bytes i)]

namespace Block.Passes

variable {b d : Block} {payload : Nat} {lines : List LogLine}

theorem used_eq (h : b.Passes payload d lines) : d.used = b.used := by
  cases h <;> rfl

theorem size_eq (h : b.Passes payload d lines) : d.size = b.size := by
  cases h <;> rfl

theorem bytes_eq (h : b.Passes payload d lines) {i : Nat} (hi : i < d.size) : d.bytes i = 0 := by
  cases h with
  | clear hz => exact hz i hi
  | cleared hc hn => rfl

theorem eq_of_clear (h : b.Passes payload d lines) (hu : b.used = false) (hc : b.Clear) :
    d = b ∧ lines = [] := by
  cases h with
  | clear hz => exact ⟨rfl, rfl⟩
  | cleared hi hn => exact absurd (hc hu _ hi.lt_size) hi.ne_zero

end Block.Passes

namespace Machine

/-- How the check of the free block `c` of a row ends. -/
inductive Checked (pre : List Block) (c : Block) (post : List Block) (m : Machine) :
    EStateM.Result Fault Machine Unit → Prop
  /-- it may be taken into use -/
  | passes {d : Block} {lines : List LogLine} {a : Arena} (hmax : c.size ≤ Word.maxRequest)
      (hp : c.Passes (m.arena.payload (span pre)) d lines) (lists : a.Lists (pre ++ d :: post))
      (inside : m.arena.Inside a) :
      Checked pre c post m
        (.ok () { m with arena := a, journal := m.journal ++ lines.toArray })
  /-- it was changed after it had been freed -/
  | caught {i : Nat} {freedAt : CallSite} (hmax : c.size ≤ Word.maxRequest) (hc : c.Changed i)
      (hf : c.freedAt = some freedAt) :
      Checked pre c post m
        (.error (.detected (.useAfterFree (m.arena.payload (span pre) + i) (c.bytes i) freedAt)) m)
  /-- it is longer than an object may be -/
  | tooLong (hlong : Word.maxRequest < c.size) :
      Checked pre c post m (.error (.panic .payloadTooLong) m)

theorem run_checkClear {m : Machine} {pre post : List Block} {c : Block}
    (hl : m.arena.Lists (pre ++ c :: post)) (hu : c.used = false)
    (hmax : c.size ≤ Word.maxRequest) (hc : c.Clear) : checkClear (span pre) m = .ok () m := by
  unfold checkClear
  rw [run_bind_ok (run_onArena_ok (hl.checkClear hu hmax hc))]
  rfl

theorem run_checkClear_tooLong {m : Machine} {off : Nat} {h : Header}
    (hr : m.arena.read off = .ok h) (hu : h.used = false) (hlong : Word.maxRequest < h.size) :
    checkClear off m = .error (.panic .payloadTooLong) m := by
  unfold checkClear
  exact run_bind_error (run_onArena_error (Arena.checkClear_tooLong hr hu hlong))

/-- Checking a free block of a row. -/
theorem checkClear_cases {m : Machine} {pre post : List Block} {c : Block}
    (hl : m.arena.Lists (pre ++ c :: post)) (hu : c.used = false) :
    Checked pre c post m (checkClear (span pre) m) := by
  by_cases hlong : Word.maxRequest < c.size
  · rw [run_checkClear_tooLong hl.read hu hlong]
    exact .tooLong hlong
  have hmax := Nat.le_of_not_lt hlong
  rcases c.zero_or_changed with hzero | ⟨i, hc⟩
  · rw [run_checkClear hl hu hmax fun _ => hzero]
    have hpass := Checked.passes (m := m) hmax (.clear hzero) hl (Arena.Inside.refl _)
    rwa [Array.append_empty] at hpass
  · have hcheck := hl.checkClear_eq hu hmax hc
    unfold checkClear
    cases hf : c.freedAt with
    | some freedAt =>
      rw [hf] at hcheck
      rw [run_bind_error (run_onArena_error hcheck)]
      exact .caught hmax hc hf
    | none =>
      obtain ⟨hlists, hin⟩ := hl.clearFrom hc
      rw [hf] at hcheck
      rw [run_bind_ok (run_onArena_ok hcheck)]
      dsimp only
      rw [run_log, Array.push_eq_append]
      exact .passes hmax (.cleared hc hf) hlists hin

/-! ## Room that is found -/

/-- Finds or makes a free segment of `size` bytes. -/
def findRoom (callback : Callback) (size : Nat) : HeapM Nat := do
  match ← search size with
  | some off => return off
  | none => extend callback size

/-- Takes the free segment at an offset into use and records who asked for it while
tracing. -/
def occupyRoom (off size : Nat) (site : CallSite) : HeapM Nat := do
  let _ ← onArena (Arena.occupy off size)
  let m ← get
  let stamp (h : Header) : Header :=
    { h with
      allocatedAt := if m.tracing then some site else none
      allocatedBy := if m.tracing then some m.context.id else none
      freedAt := none }
  let _ ← onArena (Arena.amend off stamp)
  return off

theorem takeSegment_eq (callback : Callback) (size : Nat) (site : CallSite) :
    takeSegment callback size site = (do
      let off ← findRoom callback size
      checkClear off
      occupyRoom off size site) := by
  unfold takeSegment findRoom occupyRoom
  rw [bind_assoc]
  refine bind_congr fun r => ?_
  cases r <;> rfl

/-- Room for `size` bytes in a heap, and the machine in which it stands: a block that fits
is there, and otherwise the row has grown. -/
inductive RoomFound (size : Nat) (bs : List Block) (m : Machine) :
    List Block → Block → List Block → Machine → Prop
  /-- the first block that fits; only the journal changed -/
  | fit {pre post : List Block} {c : Block} (hbs : bs = pre ++ c :: post) (hc : c.Fits size)
      (hpre : ∀ x ∈ pre, ¬ x.Fits size) (journal : Array LogLine) :
      RoomFound size bs m pre c post { m with journal := journal }
  /-- nothing fits, and room was made at the end -/
  | made {n : Machine} {pre : List Block} {c : Block} (hnone : ∀ x ∈ bs, ¬ x.Fits size)
      (hg : Grown size bs pre c) (affords : m.Affords (span (pre ++ [c])))
      (lists : n.arena.Lists (pre ++ [c])) (backed : n.arena.Backed n.platform)
      (around : m.Around n) : RoomFound size bs m pre c [] n

namespace RoomFound

variable {size : Nat} {bs pre post : List Block} {c : Block} {m n : Machine}

theorem found (h : RoomFound size bs m pre c post n) : Found size bs pre c post := by
  cases h with
  | fit hbs hc hpre journal => exact .fit hbs hc hpre
  | made hnone hg affords lists backed around => exact .made hnone hg

theorem lists (h : RoomFound size bs m pre c post n) (hl : m.arena.Lists bs) :
    n.arena.Lists (pre ++ c :: post) := by
  cases h with
  | fit hbs hc hpre journal => exact hbs ▸ hl
  | made hnone hg affords lists backed around => exact lists

theorem backed (h : RoomFound size bs m pre c post n) (hb : m.arena.Backed m.platform) :
    n.arena.Backed n.platform := by
  cases h with
  | fit hbs hc hpre journal => exact hb
  | made hnone hg affords lists backed around => exact backed

theorem around (h : RoomFound size bs m pre c post n) : m.Around n := by
  cases h with
  | fit hbs hc hpre journal => exact ⟨rfl, rfl, rfl, rfl, rfl, rfl⟩
  | made hnone hg affords lists backed around => exact around

/-- The room is within the reach of the machine. -/
theorem size_le_horizon (h : RoomFound size bs m pre c post n) (hl : m.arena.Lists bs) :
    c.size ≤ m.horizon := by
  have he : c.extent = headerSize + c.size := rfl
  cases h with
  | fit hbs hc hpre journal =>
    have hreach := top_le_horizon hl
    rw [hbs] at hl
    have hstop := hl.stop_le
    exact Nat.le_trans (by omega) hreach
  | made hnone hg affords lists backed around =>
    have hend := span_concat pre c
    exact Nat.le_trans (by omega) affords.le_horizon

theorem hasRoom (h : RoomFound size bs m pre c post n) : m.HasRoom size bs := by
  cases h with
  | fit hbs hc hpre journal => exact Or.inl ⟨c, by rw [hbs]; simp, hc⟩
  | made hnone hg affords lists backed around => exact Or.inr ⟨pre, c, hg, affords⟩

end RoomFound

/-- How the search for room ends. -/
inductive RoomSought (size : Nat) (bs : List Block) (m : Machine) :
    EStateM.Result Fault Machine Nat → Prop
  | found {n : Machine} {pre post : List Block} {c : Block}
      (hr : RoomFound size bs m pre c post n) : RoomSought size bs m (.ok (span pre) n)
  /-- the row would not fit below the reserved maximum -/
  | ceiling {journal : Array LogLine} {requested : Nat} {pre : List Block} {c : Block}
      (hnone : ∀ x ∈ bs, ¬ x.Fits size) (hg : Grown size bs pre c)
      (above : m.arena.window.ceiling < span (pre ++ [c])) :
      RoomSought size bs m
        (.error
          (.detected (.ceilingReached requested m.arena.top m.arena.window.ceiling
            (payloadOf true bs) (countOf true bs))) { m with journal := journal })
  /-- the frames ran out -/
  | frames {m' : Machine} {pre : List Block} {c : Block} (hnone : ∀ x ∈ bs, ¬ x.Fits size)
      (hg : Grown size bs pre c) (below : span (pre ++ [c]) ≤ m.arena.window.ceiling)
      (short : m.platform.frames.length <
        pagesBelow (span (pre ++ [c])) - pagesBelow m.arena.top)
      (refused : m.Refused (span (pre ++ [c])) m') :
      RoomSought size bs m
        (.error (.detected (.outOfFrames (m.pageNumber (pagesBelow m'.arena.top)))) m')

/-- Finding room in a heap, whatever its free memory holds. -/
theorem findRoom_cases {m : Machine} {bs : List Block} {size : Nat}
    (hs : m.arena.Intact m.platform bs) (hgran : size % granule = 0) :
    RoomSought size bs m (findRoom .none size m) := by
  unfold findRoom
  rcases firstFit_cases size bs with ⟨pre, c, post, rfl, hc, hpre⟩ | hnone
  · obtain ⟨j, hj⟩ := run_search (hs.lists.firstFit_of_first hc hpre)
    rw [run_bind_ok hj]
    exact .found (.fit rfl hc hpre j)
  · obtain ⟨j, hj⟩ := run_search (hs.lists.firstFit_of_none hnone)
    have hs' : Arena.Intact (arena { m with journal := j }) (platform { m with journal := j }) bs :=
      hs
    rw [run_bind_ok hj]
    dsimp only
    have hext := extend_cases hs' hgran hnone
    generalize extend .none size { m with journal := j } = r at hext
    cases hext with
    | done hg affords lists backed around =>
      exact .found (.made hnone hg ⟨affords.le_ceiling, affords.frames⟩ lists backed
        ⟨around.window_eq, around.lock_eq, around.tracing_eq, around.installed_eq,
          around.context_eq, around.keepFrames_eq⟩)
    | ceiling hg above => exact .ceiling hnone hg above
    | frames hg below short refused => exact .frames hnone hg below short refused.of_journal

/-- What is written while room is found. -/
theorem adds_findRoom (size : Nat) (m : Machine) :
    Adds (LogLine.OfRoom m.arena) m (after (findRoom .none size) m) := by
  refine (adds_search size m).bind fun r n hr => ?_
  have harena : n.arena = m.arena := by
    obtain ⟨j, hj⟩ := search_eq m size
    rw [hj] at hr
    cases hf : m.arena.firstFit size with
    | ok r => rw [hf] at hr; cases hr; rfl
    | error e => rw [hf] at hr; cases hr
  cases r with
  | none => exact harena ▸ adds_extend size n
  | some off => exact .refl n

/-- Taking a free block into use and stamping it. -/
theorem run_occupyRoom {n : Machine} {pre post : List Block} {c : Block} {size : Nat}
    (site : CallSite) (hl : n.arena.Lists (pre ++ c :: post)) (hg : size % granule = 0)
    (hle : size ≤ c.size) :
    ∃ a, occupyRoom (span pre) size site n = .ok (span pre) { n with arena := a } ∧
      a.Lists (pre ++ n.newBlock size site c :: (c.leftover size ++ post)) ∧
      n.arena.Inside a := by
  obtain ⟨a₁, hrun₁, hlists₁, hin₁⟩ := hl.occupy hg hle
  have hlists : a₁.Lists (pre ++ c.taken size :: (c.leftover size ++ post)) := hlists₁
  obtain ⟨a₂, hrun₂, hlists₂, hin₂⟩ := hlists.amend
    (c := n.newBlock size site c)
    (f := fun h => { h with
      allocatedAt := if n.tracing then some site else none
      allocatedBy := if n.tracing then some n.context.id else none
      freedAt := none }) (fun prev next => rfl) rfl rfl
  refine ⟨a₂, ?_, hlists₂, hin₁.trans hin₂⟩
  unfold occupyRoom
  rw [run_bind_ok (run_onArena_ok hrun₁), run_bind_ok (run_get _)]
  exact run_bind_ok (run_onArena_ok hrun₂)

/-- How an attempt to place a block ends, whatever free memory holds. -/
inductive Taken (size : Nat) (site : CallSite) (bs : List Block) (m : Machine) :
    EStateM.Result Fault Machine Nat → Prop
  /-- the block is in place -/
  | done {n n' : Machine} {pre post : List Block} {c d : Block} {lines : List LogLine}
      (hr : RoomFound size bs m pre c post n) (hmax : c.size ≤ Word.maxRequest)
      (hp : c.Passes (m.arena.payload (span pre)) d lines)
      (lists : n'.arena.Lists (pre ++ m.newBlock size site d :: (d.leftover size ++ post)))
      (inside : n.arena.Inside n'.arena) (platform_eq : n'.platform = n.platform)
      (events_eq : n'.events = n.events) (around : m.Around n')
      (warnings_eq : n'.warnings = m.warnings ++ lines) :
      Taken size site bs m (.ok (span pre) n')
  /-- the room that was found was changed after it had been freed -/
  | caught {n : Machine} {pre post : List Block} {c : Block} {i : Nat} {freedAt : CallSite}
      (hr : RoomFound size bs m pre c post n) (hmax : c.size ≤ Word.maxRequest) (hc : c.Changed i)
      (hf : c.freedAt = some freedAt) :
      Taken size site bs m
        (.error (.detected (.useAfterFree (m.arena.payload (span pre) + i) (c.bytes i) freedAt)) n)
  /-- the room that was found is longer than an object may be -/
  | tooLong {n : Machine} {pre post : List Block} {c : Block}
      (hr : RoomFound size bs m pre c post n) (hlong : Word.maxRequest < c.size) :
      Taken size site bs m (.error (.panic .payloadTooLong) n)
  /-- there was no room -/
  | refused {e : Fault} {n : Machine} (hr : RoomSought size bs m (.error e n)) :
      Taken size site bs m (.error e n)

/-- Placing a block leaves everything around the arena and the platform. -/
theorem Taken.around {size : Nat} {site : CallSite} {bs : List Block} {m : Machine}
    {r : EStateM.Result Fault Machine Nat} (h : Taken size site bs m r) :
    Ends (fun _ n => m.Around n) (fun _ n => m.Around n) r := by
  cases h with
  | done hr hmax hp lists inside platform_eq events_eq around warnings_eq => exact around
  | caught hr hmax hc hf => exact hr.around
  | tooLong hr hlong => exact hr.around
  | refused hr =>
    cases hr with
    | ceiling hnone hg above => exact ⟨rfl, rfl, rfl, rfl, rfl, rfl⟩
    | frames hnone hg below short refused => exact refused.moved.repaged.beside.toAround

theorem warnings_checked {c d : Block} {payload : Nat} {lines : List LogLine}
    (h : c.Passes payload d lines) (m : Machine) (a : Arena) :
    warnings { m with arena := a, journal := m.journal ++ lines.toArray } =
      m.warnings ++ lines := by
  unfold warnings
  cases h <;> simp [LogLine.level]

/-- Placing a block in a heap, whatever its free memory holds. -/
theorem takeSegment_taken {m : Machine} {bs : List Block} {size : Nat} (site : CallSite)
    (hs : m.arena.Intact m.platform bs) (hgran : size % granule = 0) :
    Taken size site bs m (takeSegment .none size site m) := by
  rw [takeSegment_eq]
  have hroom := findRoom_cases hs hgran
  generalize hr : findRoom .none size m = r at hroom
  cases hroom with
  | ceiling hnone hg above =>
    rw [run_bind_error hr]
    exact .refused (.ceiling hnone hg above)
  | frames hnone hg below short refused =>
    rw [run_bind_error hr]
    exact .refused (.frames hnone hg below short refused)
  | @found n pre post c hfound =>
    have hquiet := ((adds_findRoom size m).of_ok hr).warnings_eq fun _ => LogLine.OfRoom.level_ne
    have haround := hfound.around
    have hpayload : n.arena.payload (span pre) = m.arena.payload (span pre) :=
      (payload_of_around haround _).symm
    have hcheck := checkClear_cases (hfound.lists hs.lists) hfound.found.used_eq
    rw [run_bind_ok hr]
    generalize hk : checkClear (span pre) n = k at hcheck
    cases hcheck with
    | tooLong hlong =>
      rw [run_bind_error hk]
      exact .tooLong hfound hlong
    | caught hmax hc hf =>
      rw [run_bind_error hk, hpayload]
      exact .caught hfound hmax hc hf
    | @passes d lines a hmax hp lists inside =>
      have hblock : newBlock { n with arena := a, journal := n.journal ++ lines.toArray } size site
          d = m.newBlock size site d := by
        unfold newBlock
        rw [haround.tracing_eq, haround.context_eq]
      obtain ⟨a', hrun, hlists, hin⟩ := run_occupyRoom
        (n := { n with arena := a, journal := n.journal ++ lines.toArray }) site lists hgran
        (hp.size_eq ▸ hfound.found.le_size)
      rw [run_bind_ok hk, hrun]
      rw [hblock] at hlists
      rw [hpayload] at hp
      refine .done hfound hmax hp hlists (inside.trans hin) rfl rfl
        (haround.trans ⟨(inside.trans hin).window_eq, rfl, rfl, rfl, rfl, rfl⟩) ?_
      rw [← hquiet, ← warnings_checked hp n a']

/-- How an attempt to place a block in a sound heap ends. -/
inductive Placed (size : Nat) (site : CallSite) (bs : List Block) (m : Machine) :
    EStateM.Result Fault Machine Nat → Prop
  /-- the block is in place -/
  | done {m' : Machine} {pre post : List Block} {c : Block} (hf : Found size bs pre c post)
      (hmax : c.size ≤ Word.maxRequest) (room : m.HasRoom size bs)
      (sound : m'.arena.Sound m'.platform
        (pre ++ m.newBlock size site c :: (c.leftover size ++ post)))
      (around : m.Around m') : Placed size site bs m (.ok (span pre) m')
  /-- the room that was found is longer than an object may be -/
  | tooLong {n : Machine} {pre post : List Block} {c : Block}
      (hr : RoomFound size bs m pre c post n) (hlong : Word.maxRequest < c.size) :
      Placed size site bs m (.error (.panic .payloadTooLong) n)
  /-- there was no room -/
  | refused {e : Fault} {n : Machine} (hr : RoomSought size bs m (.error e n)) :
      Placed size site bs m (.error e n)

/-- Placing a block in a sound heap. -/
theorem takeSegment_cases {m : Machine} {bs : List Block} {size : Nat} (site : CallSite)
    (hs : m.arena.Sound m.platform bs) (hgran : size % granule = 0) :
    Placed size site bs m (takeSegment .none size site m) := by
  have htaken := takeSegment_taken site hs.intact hgran
  generalize takeSegment .none size site m = r at htaken
  cases htaken with
  | done hr hmax hp lists inside platform_eq events_eq around warnings_eq =>
    have hf := hr.found
    obtain ⟨rfl, -⟩ := hp.eq_of_clear hf.used_eq ((hf.tidy hs.orderly.toTidy).clear _ (by simp))
    have horder := (hf.orderly hs.orderly (d := m.newBlock size site _) (Block.used_taken _ size)
      rfl).1
    rw [← around.window_eq] at horder
    exact .done hf hmax hr.hasRoom
      ⟨lists, platform_eq ▸ (hr.backed hs.backed).inside inside, horder⟩ around
  | caught hr hmax hc hf =>
    have hclear := (hr.found.tidy hs.orderly.toTidy).clear _
      (List.mem_append_right _ List.mem_cons_self)
    exact absurd (hclear hr.found.used_eq _ hc.lt_size) hc.ne_zero
  | tooLong hr hlong => exact .tooLong hr hlong
  | refused hr => exact .refused hr

/-! ## After a failure -/

/-- A row with the same live blocks stands, below a top that did not go down. -/
structure Stalled (bs : List Block) (m m' : Machine) : Prop where
  around : m.Around m'
  row : ∃ bs', bs' ≠ [] ∧ Tiled m'.arena.memory none 0 bs' none ∧ span bs' ≤ m'.arena.top ∧
    live 0 bs' = live 0 bs
  le_top : m.arena.top ≤ m'.arena.top
  le_ceiling : m'.arena.top ≤ m.arena.window.ceiling

theorem Stalled.refl {m : Machine} {bs : List Block} (hl : m.arena.Lists bs) : m.Stalled bs m :=
  ⟨Around.refl m, ⟨bs, hl.ne_nil, hl.tiled, Nat.le_of_eq hl.top_eq.symm, rfl⟩, Nat.le_refl _,
    hl.top_le⟩

theorem Stalled.exists_walk {m m' : Machine} {bs : List Block} (h : m.Stalled bs m') :
    ∃ bs', m'.arena.walk = ⟨segments none 0 bs', none⟩ ∧
      Tiled m'.arena.memory none 0 bs' none ∧ live 0 bs' = live 0 bs := by
  obtain ⟨bs', hne, htiled, hspan, hlive⟩ := h.row
  refine ⟨bs', Arena.Lists.walkFrom_tiled htiled hne ?_ ?_, htiled, hlive⟩
  · rwa [Nat.zero_add]
  · rw [h.around.window_eq]
    exact h.le_ceiling

theorem Refused.stalled {m m' : Machine} {bs : List Block} {newTop : Nat}
    (h : m.Refused newTop m') (hl : m.arena.Lists bs) : m.Stalled bs m' := by
  refine ⟨h.moved.repaged.beside.toAround, ⟨bs, hl.ne_nil, hl.tiled.congr
    (h.moved.below.mono (Nat.le_refl _) ?_), ?_, rfl⟩, h.le_top, h.moved.le_ceiling⟩
  · rw [Nat.zero_add, ← hl.top_eq, Nat.min_eq_left h.le_top]
  · rw [← hl.top_eq]
    exact h.le_top

/-- The row has the same live blocks when room is found and not taken. -/
theorem RoomFound.stalled {m n : Machine} {bs pre post : List Block} {c : Block} {size : Nat}
    (h : RoomFound size bs m pre c post n) (hl : m.arena.Lists bs) : m.Stalled bs n := by
  have hlists := h.lists hl
  refine ⟨h.around, ⟨_, hlists.ne_nil, hlists.tiled, Nat.le_of_eq hlists.top_eq.symm,
    h.found.live_eq⟩, ?_, h.around.window_eq ▸ hlists.top_le⟩
  cases h with
  | fit hbs hc hpre journal => exact Nat.le_refl _
  | @made _ pre c hnone hg affords lists backed around =>
    obtain ⟨front, l, rfl⟩ : ∃ front l, bs = front ++ [l] :=
      ⟨_, _, (List.dropLast_append_getLast hl.ne_nil).symm⟩
    rw [lists.top_eq]
    exact top_le_grown hl (hnone l (by simp)) hg

/-- A payload came up that is longer than an object may be.  It was in reach of the
machine. -/
def Overlong (m : Machine) (e : Fault) : Prop :=
  e = .panic .payloadTooLong ∧ Word.maxRequest < m.horizon

/-- An operation on a sound heap did not do its work: it was declined, and the error says why,
or it came to a payload that is too long.  The live blocks stand. -/
def Declined (bs : List Block) (m : Machine) (e : Fault) (m' : Machine) : Prop :=
  ((∃ error : HeapError, e = .detected error ∧ error.Declines) ∨ m.Overlong e) ∧ m.Stalled bs m'

theorem declined_of_detected {m m' : Machine} {bs : List Block} {error : HeapError}
    (h : error.Declines) (hs : m.Stalled bs m') : m.Declined bs (.detected error) m' :=
  ⟨.inl ⟨error, rfl, h⟩, hs⟩

/-- A block that is not placed is declined. -/
theorem Placed.declined {m m' : Machine} {bs : List Block} {size : Nat} {site : CallSite}
    {e : Fault} (h : Placed size site bs m (.error e m')) (hl : m.arena.Lists bs) :
    m.Declined bs e m' := by
  cases h with
  | tooLong hr hlong =>
    exact ⟨.inr ⟨rfl, Nat.lt_of_lt_of_le hlong (hr.size_le_horizon hl)⟩, hr.stalled hl⟩
  | refused hr =>
    cases hr with
    | @ceiling journal requested pre c hnone hg above =>
      have hrefl := Stalled.refl hl
      exact declined_of_detected trivial
        ⟨⟨rfl, rfl, rfl, rfl, rfl, rfl⟩, hrefl.row, hrefl.le_top, hrefl.le_ceiling⟩
    | frames hnone hg below short refused =>
      exact declined_of_detected trivial (refused.stalled hl)

end Machine

end GuardedHeap
