/-
  Proofs/Strung/Edit.lean --- giving a segment of a string back.

  WHAT THIS FILE IS FOR.  What the steps of a release make of a string of segments: a
  header changes, neighbors are merged, a payload is cleared, and the end of the string
  goes back to the platform.  Payloads may hold anything, and the top may lie above the
  end of the string.

  WHAT IS PROVED.  Every step succeeds and leaves a string.  The used segments stay but
  for the one that is given back, and no two free ones are adjacent.  The end of the
  string stays where it is unless it is trimmed, and then the top comes down to it.
-/
import GuardedHeap.Proofs.Strung
import GuardedHeap.Proofs.Canonical

set_option autoImplicit false

namespace GuardedHeap

/-! ## Segments made from segments -/

namespace Segment

/-- A segment with another link back. -/
def backTo (s : Segment) (off : Nat) : Segment :=
  { s with header := { s.header with prev := some off } }

/-- Two segments that meet, as one. -/
def fuse (s t : Segment) : Segment :=
  { s with header :=
    { s.header with size := s.header.size + (headerSize + t.header.size), next := t.header.next } }

theorem stop_fuse {s t : Segment} (h : t.offset = s.stop) : (s.fuse t).stop = t.stop := by
  simp only [stop, fuse] at *
  omega

end Segment

/-- What a segment is apart from its links and records. -/
def Segment.core (s : Segment) : Nat × Nat × Bool := (s.offset, s.header.size, s.header.used)

/-- Offsets and payload sizes of the used segments. -/
def usedIn (ss : List Segment) : List (Nat × Nat) :=
  (ss.filter fun s => s.header.used).map fun s => (s.offset, s.header.size)

/-- Where the last of some segments ends. -/
def reach (ss : List Segment) : Option Nat := ss.getLast?.map Segment.stop

/-- The segments behind a change, with the link back of the first of them moved. -/
def relink (off : Nat) : List Segment → List Segment
  | [] => []
  | s :: rest => s.backTo off :: rest

section Rows

variable {s t : Segment} {xs ys : List Segment}

theorem usedIn_append (xs ys : List Segment) : usedIn (xs ++ ys) = usedIn xs ++ usedIn ys := by
  unfold usedIn
  rw [List.filter_append, List.map_append]

theorem usedIn_cons_free (hs : s.header.used = false) (ss : List Segment) :
    usedIn (s :: ss) = usedIn ss := by
  unfold usedIn
  rw [List.filter_cons_of_neg (by simp [hs])]

theorem usedIn_congr (h : xs.map Segment.core = ys.map Segment.core) : usedIn xs = usedIn ys := by
  have hcore : ∀ ss : List Segment,
      usedIn ss = ((ss.map Segment.core).filter fun c => c.2.2).map fun c => (c.1, c.2.1) := by
    intro ss
    rw [List.filter_map, List.map_map]
    rfl
  rw [hcore, hcore, h]

theorem isChain_parts_congr
    (h : xs.map (fun s => s.header.used) = ys.map (fun s => s.header.used))
    (hxs : xs.IsChain Segment.Parts) : ys.IsChain Segment.Parts := by
  have hused : ∀ ss : List Segment, ss.IsChain Segment.Parts ↔
      (ss.map fun s => s.header.used).IsChain fun b c => b = true ∨ c = true :=
    fun ss => by rw [List.isChain_map]; rfl
  rw [hused] at hxs ⊢
  rwa [← h]

theorem map_used_congr (h : xs.map Segment.core = ys.map Segment.core) :
    xs.map (fun s => s.header.used) = ys.map (fun s => s.header.used) := by
  have hcore : ∀ ss : List Segment,
      ss.map (fun s => s.header.used) = (ss.map Segment.core).map fun c => c.2.2 := by
    intro ss
    rw [List.map_map]
    rfl
  rw [hcore, hcore, h]

theorem head?_offset_congr (h : xs.map Segment.core = ys.map Segment.core) :
    xs.head?.map Segment.offset = ys.head?.map Segment.offset := by
  have hcore : ∀ ss : List Segment,
      ss.head?.map Segment.offset = (ss.map Segment.core).head?.map Prod.fst := by
    intro ss
    rw [List.head?_map, Option.map_map]
    rfl
  rw [hcore, hcore, h]

/-- Behind a free segment where no two are adjacent there is nothing, or something used. -/
theorem eq_nil_iff_usedIn (hs : s.header.used = false) (h : (s :: xs).IsChain Segment.Parts) :
    xs = [] ↔ usedIn xs = [] := by
  refine ⟨fun heq => heq ▸ rfl, fun hnone => ?_⟩
  cases xs with
  | nil => rfl
  | cons x rest =>
    have hx : x.header.used = true := by
      rcases (List.isChain_cons_cons.mp h).1 with hu | hu
      · rw [hs] at hu
        cases hu
      · exact hu
    have hmem : (x.offset, x.header.size) ∈ usedIn (x :: rest) :=
      List.mem_map_of_mem (List.mem_filter.mpr ⟨List.mem_cons_self, hx⟩)
    rw [hnone] at hmem
    cases hmem

@[simp] theorem reach_concat (ss : List Segment) (s : Segment) :
    reach (ss ++ [s]) = some s.stop := by
  unfold reach
  rw [List.getLast?_concat]
  rfl

theorem reach_append (xs : List Segment) (s : Segment) (ys : List Segment) :
    reach (xs ++ s :: ys) = reach (s :: ys) := by
  unfold reach
  rw [List.getLast?_append, List.getLast?_cons, Option.some_or]

theorem reach_congr (hstop : s.stop = t.stop) (h : xs.map Segment.core = ys.map Segment.core) :
    reach (s :: xs) = reach (t :: ys) := by
  have hcore (s : Segment) (ss : List Segment) : reach (s :: ss) =
      some (((ss.map Segment.core).getLast?.map fun c =>
        c.1 + headerSize + c.2.1).getD s.stop) := by
    unfold reach
    rw [List.getLast?_cons, List.getLast?_map]
    cases ss.getLast? <;> rfl
  rw [hcore, hcore, h, hstop]

theorem map_core_relink (off : Nat) (ss : List Segment) :
    (relink off ss).map Segment.core = ss.map Segment.core := by
  cases ss <;> rfl

theorem mem_relink {off : Nat} (h : t ∈ relink off xs) :
    ∃ u ∈ xs, t.offset = u.offset ∧ t.header.size = u.header.size := by
  have hcore : t.core ∈ xs.map Segment.core :=
    map_core_relink off xs ▸ List.mem_map_of_mem h
  obtain ⟨u, hu, heq⟩ := List.mem_map.mp hcore
  exact ⟨u, hu, congrArg Prod.fst heq.symm, congrArg (·.2.1) heq.symm⟩

theorem relink_relink (off off' : Nat) (ss : List Segment) :
    relink off (relink off' ss) = relink off ss := by
  cases ss <;> rfl

theorem relink_of_meets (h : (s :: xs).IsChain Segment.Meets) : relink s.offset xs = xs := by
  cases xs with
  | nil => rfl
  | cons t rest =>
    have hprev := (List.isChain_cons_cons.mp h).1.prev_eq
    rw [relink, Segment.backTo, ← hprev]

/-- The last segment behind a change ends where it did, with the link it had. -/
theorem getLast?_relink {off : Nat} (h : t ∈ (relink off xs).getLast?) :
    ∃ u ∈ xs.getLast?, t.offset = u.offset ∧ t.stop = u.stop ∧ t.header.next = u.header.next := by
  cases xs with
  | nil => cases h
  | cons z rest =>
    cases rest with
    | nil =>
      cases h
      exact ⟨z, rfl, rfl, rfl, rfl⟩
    | cons u rest =>
      rw [relink, List.getLast?_cons_cons] at h
      rw [List.getLast?_cons_cons]
      exact ⟨t, h, rfl, rfl, rfl⟩

/-- What comes behind a segment meets another one that ends in the same place with the same
link. -/
theorem isChain_relink (h : (s :: xs).IsChain Segment.Meets) (hstop : t.stop = s.stop)
    (hnext : t.header.next = s.header.next) :
    (t :: relink t.offset xs).IsChain Segment.Meets := by
  cases xs with
  | nil => exact List.isChain_singleton t
  | cons z rest =>
    obtain ⟨hmeets, hrest⟩ := List.isChain_cons_cons.mp h
    refine List.isChain_cons_cons.mpr ⟨⟨?_, rfl, ?_⟩,
      Segment.isChain_cons_congr hrest rfl rfl rfl⟩
    · rw [hnext]
      exact hmeets.next_eq
    · rw [hstop]
      exact hmeets.offset_eq

theorem isChain_fuse (h : (s :: t :: xs).IsChain Segment.Meets) :
    (s.fuse t :: relink s.offset xs).IsChain Segment.Meets :=
  let ⟨hmeets, hrest⟩ := List.isChain_cons_cons.mp h
  isChain_relink (t := s.fuse t) hrest (Segment.stop_fuse hmeets.offset_eq) rfl

end Rows

/-! ## The steps of a merge -/

namespace Arena

variable {a : Arena}

/-- The segments behind a change take a new link back.  Where there are none, the recorded
last segment moves. -/
theorem run_linkBack {post : List Segment} (off : Nat) (hoff : off < 2 ^ 64 - 1)
    (hheld : ∀ t ∈ post, t.In a.memory) (hmeets : post.IsChain Segment.Meets) :
    ∃ m, linkBack post.head? off a =
        .ok () { a with memory := m, last := if post = [] then off else a.last } ∧
      (∀ t ∈ relink off post, t.In m) ∧
      ∀ i, (∀ t ∈ post.head?, i < t.offset ∨ t.offset + headerSize ≤ i) →
        m.get i = a.memory.get i := by
  cases post with
  | nil => exact ⟨a.memory, rfl, fun _ ht => (nomatch ht), fun _ _ => rfl⟩
  | cons z rest =>
    have hold := (hheld z List.mem_cons_self).storable
    have hstore : (z.backTo off).header.Storable :=
      ⟨hold.size_lt, fun p hp => by cases hp; exact hoff, hold.next_lt⟩
    refine ⟨Header.store a.memory z.offset (z.backTo off).header, rfl, ?_, fun i hi =>
      Header.get_store_of_outside _ (hi z rfl)⟩
    intro t ht
    rcases List.mem_cons.mp ht with rfl | ht
    · exact heads_store a.memory _ hstore
    · have hrow : ([] ++ z :: rest).IsChain Segment.Meets := hmeets
      have habove := Segment.above_of_meets hrow t ht
      have hroom := z.offset_add_le
      exact (hheld t (.tail z ht)).congr (Agree.store_above _ _ (by omega))

/-- Memory holds what is in front of a merged segment, that segment and what was linked back
to it. -/
theorem held_fused {m n : Memory} {pre post : List Segment} {x y : Segment}
    (hmeets : (pre ++ x :: y :: post).IsChain Segment.Meets) (hheld : ∀ t ∈ pre, t.In m)
    (hstore : (x.fuse y).header.Storable) (hback : ∀ t ∈ relink x.offset post, t.In n)
    (hout : ∀ i, i < y.stop → n.get i = m.get i) :
    ∀ t ∈ pre ++ x.fuse y :: relink x.offset post,
      t.In ((Header.store n x.offset (x.fuse y).header).zero y.offset headerSize) := by
  have hsecond : ((pre ++ [x]) ++ y :: post).IsChain Segment.Meets := by simpa using hmeets
  have hxy : y.offset = x.offset + headerSize + x.header.size :=
    (List.isChain_append_cons_cons.mp hmeets).2.1.offset_eq
  have hroom := y.offset_add_le
  intro t ht
  rcases List.mem_append.mp ht with ht | ht
  · have hbelow := Segment.below_of_meets hmeets t ht
    have hroom' := t.offset_add_le
    have hkept := (hheld t ht).congr fun i _ hi => hout i (by omega)
    exact (hkept.congr (Agree.store_below _ _ (by omega))).congr (Agree.zero _ (by omega))
  · rcases List.mem_cons.mp ht with rfl | ht
    · exact (heads_store n _ hstore).congr
        (Agree.zero _ (.inl (show x.offset + headerSize ≤ y.offset by omega)))
    · obtain ⟨u, hu, hoff, -⟩ := mem_relink ht
      have habove := Segment.above_of_meets hsecond u hu
      exact ((hback t ht).congr (Agree.store_above _ _ (by omega))).congr
        (Agree.zero _ (by omega))

/-- Two neighbors are merged where the link between them holds and what is behind them is
read and linked back. -/
theorem run_join {x y : Segment} {next : Option Segment} {m : Memory} {last : Nat}
    (hlink : x.header.next = some y.offset)
    (hnext : a.successorSegment y.offset y.header = .ok next)
    (hlast : next = none → y.offset = a.last)
    (hback : linkBack next x.offset a = .ok () { a with memory := m, last := last })
    (hbehind : y.header.next = next.map Segment.offset)
    (hsize : x.header.size + (headerSize + y.header.size) < 2 ^ 64) :
    join x y a = .ok x.offset { a with
      memory := (Header.store m x.offset (x.fuse y).header).zero y.offset headerSize
      last := last } := by
  have hgained : Word.add headerSize y.header.size = .ok (headerSize + y.header.size) :=
    Word.add_eq_ok.mpr ⟨rfl, by omega⟩
  have hsum : Word.add x.header.size (headerSize + y.header.size) =
      .ok (x.fuse y).header.size := Word.add_eq_ok.mpr ⟨rfl, hsize⟩
  have hend : ¬ (next.isNone ∧ y.offset ≠ a.last) := fun ⟨hnone, hne⟩ =>
    hne (hlast (Option.isNone_iff_eq_none.mp hnone))
  unfold join
  rw [run_bind_ok (run_get a)]
  dsimp only
  rw [if_neg (not_not_intro hlink), hnext, run_bind_ok (run_lift_ok _ _), if_neg hend,
    run_bind_ok hback, hgained, run_bind_ok (run_lift_ok _ _), hsum,
    run_bind_ok (run_lift_ok _ _), ← hbehind]
  rfl

end Arena

namespace Arena.Strung

variable {a : Arena} {pre post : List Segment} {s x y : Segment}

/-! ## Live blocks -/

/-- Two segments of a string with the same offset are the same, so the offset tells which
one is gone. -/
theorem filter_usedIn (h : a.Strung (pre ++ s :: post)) :
    (usedIn (pre ++ s :: post)).filter (fun x => x.1 ≠ s.offset) = usedIn (pre ++ post) := by
  have hkeep : ∀ ss : List Segment, (∀ t ∈ ss, t.offset ≠ s.offset) →
      (usedIn ss).filter (fun x => x.1 ≠ s.offset) = usedIn ss := by
    intro ss hss
    refine List.filter_eq_self.mpr fun x hx => ?_
    obtain ⟨t, ht, rfl⟩ := List.mem_map.mp hx
    exact decide_eq_true (hss t (List.mem_filter.mp ht).1)
  have hpre : ∀ t ∈ pre, t.offset ≠ s.offset := by
    intro t ht
    have hlow := h.below t ht
    have hroom := t.offset_add_le
    simp only [headerSize] at hroom
    omega
  have hpost : ∀ t ∈ post, t.offset ≠ s.offset := by
    intro t ht
    have hhigh := h.above t ht
    have hroom := s.offset_add_le
    simp only [headerSize] at hroom
    omega
  have hself : (usedIn [s]).filter (fun x => x.1 ≠ s.offset) = [] := by
    refine List.filter_eq_nil_iff.mpr fun x hx => ?_
    obtain ⟨t, ht, rfl⟩ := List.mem_map.mp hx
    rw [List.mem_singleton.mp (List.mem_filter.mp ht).1]
    simp
  rw [← List.singleton_append (x := s), usedIn_append, usedIn_append, usedIn_append,
    List.filter_append, List.filter_append, hkeep pre hpre, hkeep post hpost, hself,
    List.nil_append]

theorem liveBlocks_eq {ss : List Segment} (h : a.Strung ss) : a.liveBlocks = usedIn ss := by
  unfold Arena.liveBlocks
  rw [h.walk]
  rfl

/-! ## Headers and payloads -/

/-- Other headers with the same offset, size and links make a string where the old ones
did, as long as memory holds them. -/
theorem rehead {m : Memory} {k : Header} (h : a.Strung (pre ++ s :: post))
    (hsize : k.size = s.header.size) (hprev : k.prev = s.header.prev)
    (hnext : k.next = s.header.next) (hk : Segment.In ⟨s.offset, k⟩ m)
    (hm : ∀ i, i < s.offset ∨ s.stop ≤ i → m.get i = a.memory.get i) :
    Strung { a with memory := m } (pre ++ ⟨s.offset, k⟩ :: post) := by
  have hstop : Segment.stop ⟨s.offset, k⟩ = s.stop := by
    unfold Segment.stop
    rw [hsize]
  obtain ⟨hfront, hback⟩ := List.isChain_split.mp h.meets
  refine ⟨?_, ?_, ?_, ?_, ?_, h.top_le⟩
  · have hfirst := h.first
    cases pre <;> exact hfirst
  · intro t ht
    rcases List.mem_append.mp ht with ht | ht
    · have hlow := h.below t ht
      have hroom := t.offset_add_le
      exact (h.held t (List.mem_append_left _ ht)).congr fun i _ hi => hm i (.inl (by omega))
    · rcases List.mem_cons.mp ht with rfl | ht
      · exact hk
      · have hhigh := h.above t ht
        exact (h.held t (List.mem_append_right _ (.tail s ht))).congr fun i hi _ =>
          hm i (.inr (by omega))
  · exact List.isChain_split.mpr ⟨Segment.isChain_concat_congr hfront rfl hprev,
      Segment.isChain_cons_congr hback rfl hnext hstop⟩
  · intro t ht
    cases post with
    | nil =>
      rw [List.getLast?_concat, Option.mem_def, Option.some.injEq] at ht
      obtain ⟨h1, h2, h3⟩ := h.final s (by simp)
      rw [← ht, hstop]
      exact ⟨hnext.trans h1, h2, h3⟩
    | cons u rest =>
      refine h.final t ?_
      rw [List.getLast?_append, List.getLast?_cons_cons] at ht ⊢
      exact ht
  · intro t ht
    rcases List.mem_append.mp ht with ht | ht
    · exact h.aligned t (List.mem_append_left _ ht)
    · rcases List.mem_cons.mp ht with rfl | ht
      · exact (congrArg (· % granule) hsize).trans (h.aligned s h.mem)
      · exact h.aligned t (List.mem_append_right _ (.tail s ht))

/-- A change of a header that keeps its size and its links. -/
theorem amend (h : a.Strung (pre ++ s :: post)) (f : Header → Header)
    (hsize : (f s.header).size = s.header.size) (hprev : (f s.header).prev = s.header.prev)
    (hnext : (f s.header).next = s.header.next) :
    ∃ a', Arena.amend s.offset f a = .ok (f s.header) a' ∧
      a'.Strung (pre ++ ⟨s.offset, f s.header⟩ :: post) ∧ a.Inside a' := by
  have hold := (h.held s h.mem).storable
  have hstore : (f s.header).Storable :=
    ⟨hsize ▸ hold.size_lt, hprev ▸ hold.prev_lt, hnext ▸ hold.next_lt⟩
  have hstop := h.stop_le
  have hroom := s.offset_add_le
  have hout : ∀ i, i < s.offset ∨ s.stop ≤ i →
      (Header.store a.memory s.offset (f s.header)).get i = a.memory.get i :=
    fun i hi => Header.get_store_of_outside _ (by omega)
  refine ⟨_, ?_, h.rehead hsize hprev hnext
    (heads_store a.memory _ hstore) hout, rfl, rfl, fun i hi =>
      hout i (.inr (by omega))⟩
  unfold Arena.amend
  rw [run_bind_ok (run_get a), h.read, run_bind_ok (run_lift_ok _ _),
    run_bind_ok (run_writeHeader _ _ _)]
  rfl

/-- Clearing a payload. -/
theorem clearPayload (h : a.Strung (pre ++ s :: post)) :
    ∃ a', Arena.clearPayload s.offset s.header.size a = .ok () a' ∧
      a'.Strung (pre ++ s :: post) ∧ a.Inside a' := by
  have htop := h.top_lt
  have hstop := h.stop_le
  have hdef : s.stop = s.offset + headerSize + s.header.size := rfl
  have hpayload : Word.add s.offset headerSize = .ok (s.offset + headerSize) :=
    Word.add_eq_ok.mpr ⟨rfl, by omega⟩
  have hin := (h.held s h.mem).congr (n := a.memory.zero (s.offset + headerSize) s.header.size)
    (Agree.zero _ (.inl (Nat.le_refl _)))
  refine ⟨_, ?_, h.rehead rfl rfl rfl hin fun i hi => ?_, rfl, rfl, fun i hi => ?_⟩
  · unfold Arena.clearPayload
    rw [hpayload, run_bind_ok (run_lift_ok _ _), run_clear]
  · rw [Memory.get_zero, if_neg (by omega)]
  · show (a.memory.zero _ _).get i = _
    rw [Memory.get_zero, if_neg (by omega)]

/-! ## Merging -/

/-- The segments behind a change take a new link back.  Where there are none, the recorded
last segment moves. -/
theorem linkBack (h : a.Strung (pre ++ y :: post)) (off : Nat) (hoff : off < 2 ^ 64 - 1) :
    ∃ m, Arena.linkBack post.head? off a =
        .ok () { a with memory := m, last := if post = [] then off else a.last } ∧
      (∀ t ∈ relink off post, t.In m) ∧
      ∀ i, i < y.stop ∨ a.top ≤ i → m.get i = a.memory.get i := by
  obtain ⟨m, hrun, hback, hout⟩ := run_linkBack off hoff (fun t ht => h.held t (by simp [ht]))
    (List.isChain_split.mp h.meets).2.of_cons
  refine ⟨m, hrun, hback, fun i hi => hout i fun t ht => ?_⟩
  have hmem := List.mem_of_mem_head? ht
  obtain ⟨front, back, rfl⟩ := List.append_of_mem hmem
  have ht : a.Strung ((pre ++ y :: front) ++ t :: back) := by simpa using h
  have hlow := h.above t hmem
  have hstop := ht.stop_le
  have hroom := t.offset_add_le
  omega

/-- The end of the string after a merge. -/
theorem final_join (h : a.Strung (pre ++ x :: y :: post)) {t : Segment}
    (ht : t ∈ (x.fuse y :: relink x.offset post).getLast?) :
    t.header.next = none ∧ t.offset = (if post = [] then x.offset else a.last) ∧
      t.stop ≤ a.top := by
  cases post with
  | nil =>
    have hmeets := (List.isChain_append_cons_cons.mp h.meets).2.1
    obtain ⟨hnext, -, hstop⟩ := h.final y (by simp)
    cases ht
    exact ⟨hnext, rfl, (Segment.stop_fuse hmeets.offset_eq).le.trans hstop⟩
  | cons z rest =>
    rw [if_neg (List.cons_ne_nil z rest)]
    rw [relink, List.getLast?_cons_cons] at ht
    have hend : t ∈ (relink x.offset (z :: rest)).getLast? := ht
    obtain ⟨u, hu, hoff, hstop, hnext⟩ := getLast?_relink hend
    rw [hnext, hoff, hstop]
    refine h.final u ?_
    rw [List.getLast?_append, List.getLast?_cons_cons, List.getLast?_cons_cons, hu]
    rfl

theorem storable_fuse (h : a.Strung (pre ++ x :: y :: post)) : (x.fuse y).header.Storable := by
  have hy : a.Strung ((pre ++ [x]) ++ y :: post) := by simpa using h
  have htop := h.top_lt
  have hxy : y.offset = x.offset + headerSize + x.header.size :=
    (List.isChain_append_cons_cons.mp h.meets).2.1.offset_eq
  have hstop : y.offset + headerSize + y.header.size ≤ a.top := hy.stop_le
  exact ⟨by simp only [Segment.fuse]; omega, (h.held x h.mem).storable.prev_lt,
    (hy.held y hy.mem).storable.next_lt⟩

/-- Two neighbors become one segment where the segments behind were linked back and the
merged header was written. -/
theorem fused (h : a.Strung (pre ++ x :: y :: post)) {m : Memory}
    (hback : ∀ t ∈ relink x.offset post, t.In m)
    (hout : ∀ i, i < y.stop ∨ a.top ≤ i → m.get i = a.memory.get i) :
    Strung { a with
        memory := (Header.store m x.offset (x.fuse y).header).zero y.offset headerSize
        last := if post = [] then x.offset else a.last }
      (pre ++ x.fuse y :: relink x.offset post) := by
  have hy : a.Strung ((pre ++ [x]) ++ y :: post) := by simpa using h
  have hheld := held_fused h.meets (fun t ht => h.held t (List.mem_append_left _ ht))
    h.storable_fuse hback fun i hi => hout i (.inl hi)
  refine ⟨?_, hheld, ?_, fun t ht => ?_, fun t ht => ?_, h.top_le⟩
  · have hfirst := h.first
    cases pre <;> exact hfirst
  · obtain ⟨hfront, hrest⟩ := List.isChain_split.mp h.meets
    exact List.isChain_split.mpr ⟨Segment.isChain_concat_congr hfront rfl rfl, isChain_fuse hrest⟩
  · rw [List.getLast?_append] at ht
    cases hend : (x.fuse y :: relink x.offset post).getLast? with
    | none => cases relink x.offset post <;> simp at hend
    | some u =>
      rw [hend] at ht
      cases ht
      exact h.final_join hend
  · rcases List.mem_append.mp ht with ht | ht
    · exact h.aligned t (List.mem_append_left _ ht)
    · rcases List.mem_cons.mp ht with rfl | ht
      · have h1 := h.aligned x h.mem
        have h2 := hy.aligned y hy.mem
        simp only [Segment.fuse, granule, headerSize] at *
        omega
      · obtain ⟨u, hu, -, hsize⟩ := mem_relink ht
        exact (congrArg (· % granule) hsize).trans (h.aligned u (by simp [hu]))

/-- Merging two neighbors leaves one segment where they were. -/
theorem join (h : a.Strung (pre ++ x :: y :: post)) :
    ∃ a', Arena.join x y a = .ok x.offset a' ∧
      a'.Strung (pre ++ x.fuse y :: relink x.offset post) ∧ a.Inside a' := by
  have hy : a.Strung ((pre ++ [x]) ++ y :: post) := by simpa using h
  have hmeets := (List.isChain_append_cons_cons.mp h.meets).2.1
  have htop := h.top_lt
  have hxy : y.offset = x.offset + headerSize + x.header.size := hmeets.offset_eq
  have hstop : y.offset + headerSize + y.header.size ≤ a.top := hy.stop_le
  have hlast : post.head? = none → y.offset = a.last := by
    intro hnone
    cases post with
    | nil => exact (h.final y (by simp)).2.1
    | cons z rest => cases hnone
  obtain ⟨m, hrun, hback, hout⟩ := hy.linkBack x.offset (by omega)
  refine ⟨_, run_join hmeets.next_eq hy.successorSegment hlast hrun hy.next_eq (by omega),
    h.fused hback hout, rfl, rfl, fun i hi => ?_⟩
  have hroom : x.offset + headerSize ≤ y.offset := by omega
  show ((Header.store m x.offset _).zero y.offset headerSize).get i = _
  rw [Memory.get_zero, if_neg (by omega), Header.get_store_of_outside _ (.inr (by omega)),
    hout i (.inr hi)]

/-- Merging with the segment behind, where two free ones may be adjacent only there. -/
theorem absorb_next (h : a.Strung (pre ++ s :: post)) (hfree : s.header.used = false)
    (hpre : (pre ++ [s]).IsChain Segment.Parts) (hpost : post.IsChain Segment.Parts) :
    ∃ a' c back, Arena.absorb s.offset (post.head?.map Segment.offset) a = .ok s.offset a' ∧
      c.offset = s.offset ∧ c.header.used = false ∧ a'.Strung (pre ++ c :: back) ∧ a.Inside a' ∧
      (pre ++ c :: back).IsChain Segment.Parts ∧ usedIn back = usedIn post ∧
      reach (pre ++ c :: back) = reach (pre ++ s :: post) := by
  cases post with
  | nil => exact ⟨a, s, [], rfl, rfl, hfree, h, Inside.refl a, hpre, rfl, rfl⟩
  | cons y rest =>
    have hy : a.Strung ((pre ++ [s]) ++ y :: rest) := by simpa using h
    have hmeets := (List.isChain_append_cons_cons.mp h.meets).2.1
    have hroom := s.offset_add_le
    have hstop := hmeets.offset_eq
    obtain ⟨hy', hrest⟩ := List.isChain_cons.mp hpost
    rw [List.head?_cons, Option.map_some]
    unfold Arena.absorb
    dsimp only
    rw [run_bind_ok (run_get a), h.read, run_bind_ok (run_lift_ok _ _), hy.read,
      run_bind_ok (run_lift_ok _ _)]
    cases hu : y.header.used with
    | true =>
      rw [if_pos rfl]
      refine ⟨a, s, y :: rest, rfl, rfl, hfree, h, Inside.refl a, ?_, rfl, rfl⟩
      exact List.isChain_split.mpr ⟨hpre, List.isChain_cons_cons.mpr ⟨.inr hu, hpost⟩⟩
    | false =>
      rw [if_neg Bool.false_ne_true, if_neg (by simp only [headerSize] at hroom; omega)]
      obtain ⟨a', hjoin, hstrung, hin⟩ := h.join
      refine ⟨a', s.fuse y, relink s.offset rest, hjoin, rfl, hfree, hstrung, hin, ?_, ?_, ?_⟩
      · have hback := map_used_congr (map_core_relink s.offset rest)
        refine List.isChain_split.mpr ⟨isChain_parts_congr ?_ hpre, isChain_parts_congr ?_ hpost⟩
        · rw [List.map_append, List.map_append]
          rfl
        · rw [List.map_cons, List.map_cons, hback, hu]
          exact congrArg (· :: _) hfree.symm
      · rw [usedIn_cons_free hu]
        exact usedIn_congr (map_core_relink s.offset rest)
      · rw [reach_append, reach_append, ← List.singleton_append (x := s), reach_append]
        exact reach_congr (Segment.stop_fuse hstop) (map_core_relink s.offset rest)

/-- Merging with the segment in front. -/
theorem absorb_prev (h : a.Strung (pre ++ s :: post)) (hfree : s.header.used = false)
    (hpre : pre.IsChain Segment.Parts) :
    ∃ a' front c back, Arena.absorb s.offset (pre.getLast?.map Segment.offset) a =
        .ok c.offset a' ∧
      c.header.used = false ∧ a'.Strung (front ++ c :: back) ∧ a.Inside a' ∧
      (front ++ [c]).IsChain Segment.Parts ∧ usedIn front = usedIn pre ∧
      back.map Segment.core = post.map Segment.core ∧
      reach (front ++ c :: back) = reach (pre ++ s :: post) := by
  rcases List.eq_nil_or_concat pre with rfl | ⟨front, p, rfl⟩
  · exact ⟨a, [], s, post, rfl, hfree, h, Inside.refl a, List.isChain_singleton s, rfl, rfl, rfl⟩
  · rw [List.concat_eq_append] at *
    have hp : a.Strung (front ++ p :: s :: post) := by simpa using h
    have hmeets := (List.isChain_append_cons_cons.mp hp.meets).2.1
    have hstop := hmeets.offset_eq
    have hroom := p.offset_add_le
    rw [List.getLast?_concat, Option.map_some]
    unfold Arena.absorb
    dsimp only
    rw [run_bind_ok (run_get a), h.read, run_bind_ok (run_lift_ok _ _), hp.read,
      run_bind_ok (run_lift_ok _ _)]
    cases hu : p.header.used with
    | true =>
      rw [if_pos rfl]
      refine ⟨a, front ++ [p], s, post, rfl, hfree, h, Inside.refl a, ?_, rfl, rfl, rfl⟩
      exact List.isChain_append.mpr ⟨hpre, List.isChain_singleton s, fun x hx _ _ => by
        rw [List.getLast?_concat] at hx
        cases hx
        exact .inl hu⟩
    | false =>
      rw [if_neg Bool.false_ne_true, if_pos (by simp only [headerSize] at hroom; omega)]
      obtain ⟨a', hjoin, hstrung, hin⟩ := hp.join
      refine ⟨a', front, p.fuse s, relink p.offset post, hjoin, hu, hstrung, hin, ?_, ?_,
        map_core_relink p.offset post, ?_⟩
      · refine isChain_parts_congr ?_ hpre
        rw [List.map_append, List.map_append]
        rfl
      · rw [usedIn_append, usedIn_cons_free hu]
        exact (List.append_nil _).symm
      · rw [reach_append, reach_append]
        exact reach_congr (Segment.stop_fuse hstop) (map_core_relink p.offset post)

/-- The work of a release between its look and the trim: the segment becomes free, merges
with free neighbors, remembers where it was freed, and is cleared. -/
theorem exists_released (h : a.Strung (pre ++ s :: post))
    (hparts : (pre ++ s :: post).IsChain Segment.Parts) (site : CallSite) :
    ∃ a' front c back, (do
        let _ ← Arena.amend s.offset fun h => { h with used := false }
        let off ← Arena.absorb s.offset (pre.getLast?.map Segment.offset)
        let off ← Arena.absorb off (post.head?.map Segment.offset)
        let h ← Arena.amend off fun h => { h with freedAt := some site }
        Arena.clearPayload off h.size
        return off : ArenaM Nat) a = .ok c.offset a' ∧
      c.header.used = false ∧ a'.Strung (front ++ c :: back) ∧ a.Inside a' ∧
      (front ++ c :: back).IsChain Segment.Parts ∧ usedIn front = usedIn pre ∧
      usedIn back = usedIn post ∧ reach (front ++ c :: back) = reach (pre ++ s :: post) := by
  obtain ⟨hpre, hpost, -⟩ := List.isChain_append.mp hparts
  obtain ⟨a₁, hamend, hs₁, hin₁⟩ :=
    h.amend (fun h => { h with used := false }) rfl rfl rfl
  obtain ⟨a₂, front, c, back, hprev, hc, hs₂, hin₂, hfront, hused₂, hcore, hreach₂⟩ :=
    hs₁.absorb_prev rfl hpre
  obtain ⟨a₃, d, rest, hnext, hoff, hd, hs₃, hin₃, hparts₃, hused₃, hreach₃⟩ :=
    hs₂.absorb_next hc hfront (isChain_parts_congr (map_used_congr hcore.symm) hpost.of_cons)
  obtain ⟨a₄, hstamp, hs₄, hin₄⟩ :=
    hs₃.amend (fun h => { h with freedAt := some site }) rfl rfl rfl
  obtain ⟨a₅, hclear, hs₅, hin₅⟩ := hs₄.clearPayload
  refine ⟨a₅, front, ⟨d.offset, { d.header with freedAt := some site }⟩, rest, ?_, hd, hs₅,
    (((hin₁.trans hin₂).trans hin₃).trans hin₄).trans hin₅, ?_, hused₂, ?_, ?_⟩
  · rw [← head?_offset_congr hcore]
    rw [hoff] at hstamp hclear
    rw [run_bind_ok hamend, run_bind_ok hprev, run_bind_ok hnext, run_bind_ok hstamp,
      run_bind_ok hclear, ← hoff]
    rfl
  · refine isChain_parts_congr ?_ hparts₃
    rw [List.map_append, List.map_append]
    rfl
  · exact hused₃.trans (usedIn_congr hcore)
  · refine Eq.trans ?_ (hreach₃.trans (hreach₂.trans ?_))
    · rw [reach_append, reach_append]
      exact reach_congr rfl rfl
    · rw [reach_append, reach_append]
      exact reach_congr rfl rfl

/-! ## The end of the string -/

/-- A segment that loses what is behind it, and some of its own payload, becomes the last
one. -/
theorem endAt (h : a.Strung (pre ++ s :: post)) {k : Header} (hprev : k.prev = s.header.prev)
    (hnext : k.next = none) (hsize : k.size ≤ s.header.size) (haligned : k.size % granule = 0) :
    Strung { a with memory := Header.store a.memory s.offset k, last := s.offset }
      (pre ++ [⟨s.offset, k⟩]) := by
  have hold := (h.held s h.mem).storable
  have hstore : k.Storable :=
    ⟨Nat.lt_of_le_of_lt hsize hold.size_lt, hprev ▸ hold.prev_lt, fun n hn => by
      rw [hnext] at hn
      cases hn⟩
  have hstop := h.stop_le
  have hdef : s.stop = s.offset + headerSize + s.header.size := rfl
  refine ⟨?_, fun t ht => ?_, ?_, fun t ht => ?_, fun t ht => ?_, h.top_le⟩
  · have hfirst := h.first
    cases pre <;> exact hfirst
  · rcases List.mem_append.mp ht with ht | ht
    · have hlow := h.below t ht
      have hroom := t.offset_add_le
      exact (h.held t (List.mem_append_left _ ht)).congr (Agree.store_below _ _ (by omega))
    · rw [List.mem_singleton.mp ht]
      exact heads_store a.memory _ hstore
  · exact Segment.isChain_concat_congr (List.isChain_split.mp h.meets).1 rfl hprev
  · rw [List.getLast?_concat] at ht
    cases ht
    refine ⟨hnext, rfl, ?_⟩
    show s.offset + headerSize + k.size ≤ a.top
    omega
  · rcases List.mem_append.mp ht with ht | ht
    · exact h.aligned t (List.mem_append_left _ ht)
    · rw [List.mem_singleton.mp ht]
      exact haligned

end Arena.Strung

end GuardedHeap
