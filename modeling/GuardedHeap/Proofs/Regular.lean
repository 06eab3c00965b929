/-
  Proofs/Regular.lean --- segments that follow the rules, in any memory.

  WHAT THIS FILE IS FOR.  The steps from which the heap operations are made rely on the
  rules for segments and keep them.  `Regular` states these rules and nothing else: payloads
  and records may hold anything, free segments may be adjacent, and of the window only the
  top counts.

  WHAT IS PROVED.  Taking part of a segment into use, marking it, and merging it with a
  neighbor succeed in every regular arena and leave a regular one.  Each of them changes the
  headers of the segments it is about and that of the segment behind, and no other byte.
-/
import GuardedHeap.Proofs.Strung.Edit

set_option autoImplicit false

namespace GuardedHeap

/-! ## Segments made from a segment -/

namespace Segment

/-- A segment marked as used or as free. -/
def mark (s : Segment) (used : Bool) : Segment :=
  { s with header := { s.header with used := used } }

/-- What is split off when `size` bytes of a segment are taken. -/
def remnant (s : Segment) (size : Nat) : Segment :=
  ⟨s.offset + headerSize + size,
    Header.free (some s.offset) s.header.next (s.header.size - size - headerSize)⟩

/-- What stays of a segment when something is split off. -/
def kept (s : Segment) (used : Bool) (size : Nat) : Segment :=
  { s with header :=
    { s.header with used := used, size := size, next := some (s.remnant size).offset } }

/-- Where something is split off when `size` bytes of a segment are taken, if that leaves
more than a header. -/
def split? (s : Segment) (size : Nat) : Option Nat :=
  if headerSize < s.header.size - size then some (s.remnant size).offset else none

/-- A segment of which `size` bytes were taken, with what was split off and the segments
behind it. -/
def carve (s : Segment) (used : Bool) (size : Nat) (post : List Segment) : List Segment :=
  if headerSize < s.header.size - size then
    s.kept used size :: s.remnant size :: relink (s.remnant size).offset post
  else s.mark used :: post

/-- The offsets of the headers that have to do with `size` bytes of a segment: its own, that
of what is split off, and that of the segment behind. -/
def affected (s : Segment) (size : Nat) (post : List Segment) : List Nat :=
  s.offset :: ((s.split? size).toList ++ (post.head?.map Segment.offset).toList)

variable {s : Segment} {used : Bool} {size : Nat}

theorem split?_bounds {off : Nat} (h : off ∈ s.split? size) :
    s.offset + headerSize ≤ off ∧ off + headerSize ≤ s.stop := by
  unfold split? at h
  split at h
  · cases h
    simp only [remnant, stop]
    omega
  · cases h

theorem stop_remnant (h : headerSize < s.header.size - size) :
    (s.remnant size).stop = s.stop := by
  simp only [stop, remnant, Header.free]
  omega

theorem meets_remnant (s : Segment) (used : Bool) (size : Nat) :
    (s.kept used size).Meets (s.remnant size) := ⟨rfl, rfl, rfl⟩

theorem mark_eq (h : s.header.used = used) : s.mark used = s := by
  rw [mark, ← h]

/-- A free segment that was split is whole again when its parts are merged. -/
theorem fuse_remnant (hfree : s.header.used = false) (h : headerSize < s.header.size - size) :
    (s.kept false size).fuse (s.remnant size) = s := by
  have hsize : size + (headerSize + (s.header.size - size - headerSize)) = s.header.size := by
    omega
  obtain ⟨off, header⟩ := s
  obtain ⟨used, size', prev, next, allocatedAt, allocatedBy, freedAt⟩ := header
  simp only [fuse, kept, remnant, Header.free] at hfree hsize ⊢
  rw [hsize, hfree]

/-- No byte of a payload is in a header. -/
theorem payload_outside {ss : List Segment} {s t : Segment} {i : Nat} (h : ss.IsChain Meets)
    (hs : s ∈ ss) (ht : t ∈ ss) (hlow : s.offset + headerSize ≤ i) (hhigh : i < s.stop) :
    i < t.offset ∨ t.offset + headerSize ≤ i := by
  obtain ⟨pre, post, rfl⟩ := List.append_of_mem hs
  have hroom := t.offset_add_le
  rcases List.mem_append.mp ht with ht | ht
  · have := below_of_meets h t ht
    omega
  · rcases List.mem_cons.mp ht with rfl | ht
    · exact .inr hlow
    · have := above_of_meets h t ht
      omega

end Segment

/-! ## Regular arenas -/

namespace Arena

/-- An arena is exactly a list of segments.  Every one of them has its guard and a size on
the granule.  The first is at offset zero and names none in front of it, every other one
starts where the one in front of it ends, and the two name each other.  The last one names
none behind it, is recorded as the last one, and ends at the top. -/
structure Regular (a : Arena) (ss : List Segment) : Prop where
  first : ss.head?.map (fun s => (s.offset, s.header.prev)) = some (0, none)
  held : ∀ s ∈ ss, s.In a.memory
  meets : ss.IsChain Segment.Meets
  final : ∀ s ∈ ss.getLast?, s.header.next = none ∧ s.offset = a.last ∧ s.stop = a.top
  aligned : ∀ s ∈ ss, s.header.size % granule = 0

/-- Nothing changed but headers at the offsets in `offs`, and the recorded last segment. -/
structure Reheaded (a : Arena) (offs : List Nat) (b : Arena) : Prop where
  window_eq : b.window = a.window
  top_eq : b.top = a.top
  get_eq : ∀ i, (∀ off ∈ offs, i < off ∨ off + headerSize ≤ i) →
    b.memory.get i = a.memory.get i

/-- A string that reaches the top and has none in front of it follows the rules. -/
theorem Strung.regular {a : Arena} {ss : List Segment} (h : a.Strung ss)
    (hreach : reach ss = some a.top) (hprev : (a.headerAt 0).prev = none) : a.Regular ss where
  first := by
    cases ss with
    | nil => cases h.first
    | cons s rest =>
      have hoff := h.head_offset
      have hheld : a.headerAt s.offset = s.header := (h.held s List.mem_cons_self).load_eq
      rw [hoff] at hheld
      rw [List.head?_cons, Option.map_some, hoff, ← hheld, hprev]
  held := h.held
  meets := h.meets
  final s hs := by
    obtain ⟨hnext, hlast, -⟩ := h.final s hs
    unfold reach at hreach
    rw [hs, Option.map_some, Option.some.injEq] at hreach
    exact ⟨hnext, hlast, hreach⟩
  aligned := h.aligned

namespace Regular

variable {a b : Arena} {ss pre post : List Segment} {s t x y o l : Segment} {size : Nat}

theorem stop_le (h : a.Regular (pre ++ s :: post)) : s.stop ≤ a.top :=
  Segment.stop_le_of_meets h.meets fun t ht => Nat.le_of_eq (h.final t ht).2.2

theorem mem (_ : a.Regular (pre ++ s :: post)) : s ∈ pre ++ s :: post :=
  List.mem_append_right pre List.mem_cons_self

theorem next_eq (h : a.Regular (pre ++ s :: post)) :
    s.header.next = post.head?.map Segment.offset :=
  Segment.next_eq_of_meets h.meets fun t ht => (h.final t ht).1

theorem read (h : a.Regular (pre ++ s :: post)) (htop : a.top < 2 ^ 64) :
    a.read s.offset = .ok s.header :=
  read_of_in htop (h.held s h.mem) (Nat.le_trans s.offset_add_le h.stop_le)

/-- The segment behind is read where the link leads. -/
theorem successorSegment (h : a.Regular (pre ++ s :: post)) (htop : a.top < 2 ^ 64) :
    a.successorSegment s.offset s.header = .ok post.head? := by
  have hnext := h.next_eq
  unfold Arena.successorSegment
  cases post with
  | nil =>
    unfold Arena.successor
    rw [hnext]
    rfl
  | cons t rest =>
    have ht : a.Regular ((pre ++ [s]) ++ t :: rest) := by simpa using h
    have hmeets := (List.isChain_append_cons_cons.mp h.meets).2.1
    rw [successor_of_link hnext hmeets.offset_eq (Nat.le_trans t.offset_add_le ht.stop_le)]
    simp only [bind, Except.bind, ht.read htop]
    rfl

theorem last_unique (ha : a.Regular ss) (hb : b.Regular ss) :
    b.last = a.last ∧ b.top = a.top := by
  have hne : ss ≠ [] := by
    rintro rfl
    cases ha.first
  have hlast := List.getLast?_eq_some_getLast hne
  obtain ⟨-, hoff, hstop⟩ := ha.final _ hlast
  obtain ⟨-, hoff', hstop'⟩ := hb.final _ hlast
  exact ⟨hoff'.symm.trans hoff, hstop'.symm.trans hstop⟩

theorem payload_eq {offs : List Nat} {i : Nat} (h : a.Regular ss) (hb : a.Reheaded offs b)
    (hoffs : ∀ off ∈ offs, ∃ s ∈ ss, s.offset = off) (ht : t ∈ ss) (hi : i < t.header.size) :
    b.memory.get (t.offset + headerSize + i) = a.memory.get (t.offset + headerSize + i) := by
  refine hb.get_eq _ fun off hoff => ?_
  obtain ⟨s, hs, rfl⟩ := hoffs off hoff
  exact Segment.payload_outside h.meets ht hs (Nat.le_add_right _ _)
    (by simp only [Segment.stop]; omega)

/-! ## Replacing segments -/

/-- Segments `new` and `l` may take the place of `old` and `o` where they start and end like
these, the segments behind are linked back to `l`, and memory holds them all. -/
theorem replace {m : Memory} (old new : List Segment)
    (h : a.Regular (pre ++ (old ++ o :: post)))
    (hfirst : (new ++ [l]).head?.map (fun s => (s.offset, s.header.prev)) =
      (old ++ [o]).head?.map fun s => (s.offset, s.header.prev))
    (hstop : l.stop = o.stop) (hnext : l.header.next = o.header.next)
    (hmeets : (new ++ [l]).IsChain Segment.Meets)
    (haligned : ∀ t ∈ new ++ [l], t.header.size % granule = 0)
    (hheld : ∀ t ∈ pre ++ (new ++ l :: relink l.offset post), t.In m) :
    Regular { a with memory := m, last := if post = [] then l.offset else a.last }
      (pre ++ (new ++ l :: relink l.offset post)) := by
  obtain ⟨hchain, hold, hcross⟩ := List.isChain_append.mp h.meets
  have hbehind := (List.isChain_split.mp hold).2
  have hhead : (new ++ l :: relink l.offset post).head?.map
      (fun s => (s.offset, s.header.prev)) =
        (old ++ o :: post).head?.map fun s => (s.offset, s.header.prev) := by
    cases new <;> cases old <;> exact hfirst
  refine ⟨?_, hheld, ?_, fun t ht => ?_, fun t ht => ?_⟩
  · have hf := h.first
    cases pre with
    | nil => exact hhead.trans hf
    | cons p rest => exact hf
  · refine List.isChain_append.mpr ⟨hchain, List.isChain_split.mpr
      ⟨hmeets, isChain_relink hbehind hstop hnext⟩, fun p hp t ht => ?_⟩
    -- what stood first in the old place has the offset and the link back of `t`
    obtain ⟨u, hu, heq⟩ := Option.map_eq_some_iff.mp
      (hhead.symm.trans (congrArg (Option.map fun s => (s.offset, s.header.prev)) ht))
    obtain ⟨hoff, hprev⟩ := Prod.mk.injEq .. ▸ heq
    have hmeets := hcross p hp u hu
    refine ⟨?_, ?_, ?_⟩
    · rw [← hoff]
      exact hmeets.next_eq
    · rw [← hprev]
      exact hmeets.prev_eq
    · rw [← hoff]
      exact hmeets.offset_eq
  · have hfinal := h.final
    rw [← List.append_assoc, List.getLast?_append, List.getLast?_cons, Option.some_or] at ht hfinal
    cases ht
    cases hlast : (relink l.offset post).getLast? with
    | none =>
      cases post with
      | nil =>
        obtain ⟨hend, -, htop⟩ := hfinal o rfl
        exact ⟨hnext.trans hend, rfl, hstop.trans htop⟩
      | cons z rest => simp [relink] at hlast
    | some t =>
      obtain ⟨u, hu, hoff, hend, hlink⟩ := getLast?_relink hlast
      rw [hu] at hfinal
      have hne : post ≠ [] := by
        rintro rfl
        cases hu
      rw [if_neg hne, Option.getD_some, hoff, hend, hlink]
      exact hfinal u rfl
  · rcases List.mem_append.mp ht with ht | ht
    · exact h.aligned t (List.mem_append_left _ ht)
    · rw [List.append_cons] at ht
      rcases List.mem_append.mp ht with ht | ht
      · exact haligned t ht
      · obtain ⟨u, hu, -, hsize⟩ := mem_relink ht
        exact (congrArg (· % granule) hsize).trans (h.aligned u (by simp [hu]))

/-! ## Marking -/

/-- Another mark in the header of a segment. -/
theorem mark (h : a.Regular (pre ++ s :: post)) (used : Bool) :
    Regular { a with memory := Header.store a.memory s.offset (s.mark used).header }
      (pre ++ s.mark used :: post) := by
  have hold := (h.held s h.mem).storable
  have hroom := s.offset_add_le
  have hbehind : (s.mark used :: post).IsChain Segment.Meets :=
    Segment.isChain_cons_congr (List.isChain_split.mp h.meets).2 rfl rfl rfl
  have hrelink : relink (s.mark used).offset post = post := relink_of_meets hbehind
  have hlast : (if post = [] then (s.mark used).offset else a.last) = a.last := by
    split
    · rename_i hnil
      subst hnil
      exact (h.final s (by simp)).2.1
    · rfl
  have hreplaced := h.replace [] [] (l := s.mark used)
    (m := Header.store a.memory s.offset (s.mark used).header) rfl rfl rfl
    (List.isChain_singleton _) (fun t ht => ?_) (fun t ht => ?_)
  · rwa [hrelink, hlast] at hreplaced
  · rw [List.nil_append, List.mem_singleton] at ht
    subst ht
    exact h.aligned s h.mem
  · rw [List.nil_append, hrelink] at ht
    rcases List.mem_append.mp ht with ht | ht
    · have hbelow := Segment.below_of_meets h.meets t ht
      have hroom' := t.offset_add_le
      exact (h.held t (List.mem_append_left _ ht)).congr (Agree.store_below _ _ (by omega))
    · rcases List.mem_cons.mp ht with rfl | ht
      · exact heads_store a.memory _
          ⟨hold.size_lt, hold.prev_lt, hold.next_lt⟩
      · have habove := Segment.above_of_meets h.meets t ht
        exact (h.held t (List.mem_append_right _ (.tail s ht))).congr
          (Agree.store_above _ _ (by omega))

theorem amend_mark (h : a.Regular (pre ++ s :: post)) (htop : a.top < 2 ^ 64) (used : Bool) :
    ∃ a', Arena.amend s.offset (fun h => { h with used := used }) a =
        .ok (s.mark used).header a' ∧
      a'.Regular (pre ++ s.mark used :: post) ∧ a.Reheaded [s.offset] a' := by
  refine ⟨_, ?_, h.mark used, rfl, rfl, fun i hi =>
    Header.get_store_of_outside _ (hi s.offset List.mem_cons_self)⟩
  unfold Arena.amend
  rw [run_bind_ok (run_get a), h.read htop, run_bind_ok (run_lift_ok _ _),
    run_bind_ok (run_writeHeader _ _ _)]
  rfl

/-! ## Splitting -/

/-- Two headers where one segment was, and a link back behind them. -/
theorem split (h : a.Regular (pre ++ s :: post)) (used : Bool) {m : Memory}
    (hsplit : headerSize < s.header.size - size) (hg : size % granule = 0)
    (hkept : (s.kept used size).In m) (hremnant : (s.remnant size).In m)
    (hbehind : ∀ t ∈ relink (s.remnant size).offset post, t.In m)
    (hout : ∀ i, i < s.offset → m.get i = a.memory.get i) :
    Regular { a with
        memory := m
        last := if post = [] then (s.remnant size).offset else a.last }
      (pre ++ s.carve used size post) := by
  rw [Segment.carve, if_pos hsplit]
  refine h.replace [] [s.kept used size] (l := s.remnant size) rfl
    (Segment.stop_remnant hsplit) rfl (List.isChain_pair.mpr (s.meets_remnant used size))
    (fun t ht => ?_) fun t ht => ?_
  · have hs := h.aligned s h.mem
    rcases List.mem_cons.mp ht with rfl | ht
    · exact hg
    · rw [List.mem_singleton.mp ht]
      simp only [Segment.remnant, Header.free, granule, headerSize] at *
      omega
  · rcases List.mem_append.mp ht with ht | ht
    · have hbelow := Segment.below_of_meets h.meets t ht
      have hroom := t.offset_add_le
      exact (h.held t (List.mem_append_left _ ht)).congr fun i _ hi => hout i (by omega)
    · rcases List.mem_cons.mp ht with rfl | ht
      · exact hkept
      · rcases List.mem_cons.mp ht with rfl | ht
        · exact hremnant
        · exact hbehind t ht

theorem storable_parts (h : a.Regular (pre ++ s :: post)) (htop : a.top < 2 ^ 64) (used : Bool)
    (hsplit : headerSize < s.header.size - size) :
    (s.kept used size).header.Storable ∧ (s.remnant size).header.Storable := by
  have hold := (h.held s h.mem).storable
  have hstop : s.offset + headerSize + s.header.size ≤ a.top := h.stop_le
  have hoff : (s.remnant size).offset = s.offset + headerSize + size := rfl
  constructor
  · exact ⟨by simp only [Segment.kept]; omega, hold.prev_lt, fun p hp => by cases hp; omega⟩
  · exact ⟨by simp only [Segment.remnant, Header.free]; omega, fun p hp => by cases hp; omega,
      hold.next_lt⟩

/-- A remnant is written first, then the segment behind is linked back to it, and the segment
itself comes last. -/
theorem run_occupy_split (h : a.Regular (pre ++ s :: post)) (htop : a.top < 2 ^ 64)
    (hsplit : headerSize < s.header.size - size) (hg : size % granule = 0)
    (hrun : linkBack post.head? (s.remnant size).offset { a with
      memory := Header.store a.memory (s.remnant size).offset (s.remnant size).header } =
        .ok () b) :
    Arena.occupy s.offset size a = .ok (some (s.remnant size).offset)
      { b with memory := Header.store b.memory s.offset (s.kept true size).header } := by
  have hstop : s.offset + headerSize + s.header.size ≤ a.top := h.stop_le
  have hpayload : Word.add s.offset headerSize = .ok (s.offset + headerSize) :=
    Word.add_eq_ok.mpr ⟨rfl, by omega⟩
  have hadd : Word.add (s.offset + headerSize) size = .ok (s.remnant size).offset :=
    Word.add_eq_ok.mpr ⟨rfl, by omega⟩
  unfold Arena.occupy
  rw [run_bind_ok (run_get a), h.read htop, run_bind_ok (run_lift_ok _ _)]
  dsimp only
  rw [if_neg (fun hne => hne hg), if_neg (by omega), h.successorSegment htop,
    run_bind_ok (run_lift_ok _ _), if_pos hsplit, hpayload, run_bind_ok (run_lift_ok _ _), hadd,
    run_bind_ok (run_lift_ok _ _), run_bind_ok (run_writeHeader _ _ _), ← h.next_eq]
  exact (run_bind_ok hrun).trans rfl

/-- Where more than a header is left, taking part of a segment into use leaves two segments. -/
theorem occupy_split (h : a.Regular (pre ++ s :: post)) (htop : a.top < 2 ^ 64)
    (hsplit : headerSize < s.header.size - size) (hg : size % granule = 0) :
    ∃ a', Arena.occupy s.offset size a = .ok (some (s.remnant size).offset) a' ∧
      a'.Regular (pre ++ s.carve true size post) ∧ a.Reheaded (s.affected size post) a' := by
  obtain ⟨hkept, hremnant⟩ := h.storable_parts htop true hsplit
  have hstop : s.offset + headerSize + s.header.size ≤ a.top := h.stop_le
  have hdef : s.stop = s.offset + headerSize + s.header.size := rfl
  have hoff : (s.remnant size).offset = s.offset + headerSize + size := rfl
  have habove := Segment.above_of_meets h.meets
  let b : Arena := { a with
    memory := Header.store a.memory (s.remnant size).offset (s.remnant size).header }
  have hb : ∀ t ∈ post, t.In b.memory := fun t ht =>
    (h.held t (by simp [ht])).congr (Agree.store_above _ _ (by
      have := habove t ht
      omega))
  obtain ⟨m, hrun, hbehind, hout⟩ := run_linkBack (s.remnant size).offset (by omega) hb
    (List.isChain_split.mp h.meets).2.of_cons
  refine ⟨_, h.run_occupy_split htop hsplit hg hrun, ?_, rfl, rfl, fun i hi => ?_⟩
  · -- below the segment behind nothing is written after the remnant but the segment itself
    have hlow : ∀ i, i < s.stop → m.get i = b.memory.get i := fun i hi =>
      hout i fun t ht => .inl (Nat.lt_of_lt_of_le hi (habove t (List.mem_of_mem_head? ht)))
    have hin : (s.remnant size).In m :=
      (heads_store a.memory _ hremnant).congr fun i _ hi => hlow i (by omega)
    refine h.split true hsplit hg (heads_store m _ hkept)
      (hin.congr (Agree.store_above _ _ (by omega))) (fun t ht => ?_) fun i hi => ?_
    · obtain ⟨u, hu, heq, -⟩ := mem_relink ht
      have := habove u hu
      exact (hbehind t ht).congr (Agree.store_above _ _ (by omega))
    · rw [Header.get_store_of_outside _ (.inl hi), hlow i (by omega),
        Header.get_store_of_outside _ (.inl (by omega))]
  · simp only [Segment.affected, Segment.split?, if_pos hsplit, List.forall_mem_cons,
      Option.toList_some, List.singleton_append, Option.mem_toList] at hi
    obtain ⟨hself, hrest, hnext⟩ := hi
    rw [Header.get_store_of_outside _ hself, hout i fun t ht => hnext _ (by rw [ht]; rfl),
      Header.get_store_of_outside _ hrest]

/-- Where no more than a header is left, it takes all of it. -/
theorem occupy_whole (h : a.Regular (pre ++ s :: post)) (htop : a.top < 2 ^ 64)
    (hsplit : ¬ headerSize < s.header.size - size) (hg : size % granule = 0)
    (hle : size ≤ s.header.size) :
    ∃ a', Arena.occupy s.offset size a = .ok none a' ∧
      a'.Regular (pre ++ s.carve true size post) ∧ a.Reheaded (s.affected size post) a' := by
  refine ⟨{ a with memory := Header.store a.memory s.offset (s.mark true).header }, ?_, ?_, rfl,
    rfl, fun i hi => Header.get_store_of_outside _ (hi s.offset List.mem_cons_self)⟩
  · unfold Arena.occupy
    rw [run_bind_ok (run_get a), h.read htop, run_bind_ok (run_lift_ok _ _)]
    dsimp only
    rw [if_neg (fun hne => hne hg), if_neg (Nat.not_lt.mpr hle), h.successorSegment htop,
      run_bind_ok (run_lift_ok _ _), if_neg hsplit]
    rfl
  · rw [Segment.carve, if_neg hsplit]
    exact h.mark true

/-- Taking part of a segment into use succeeds, and what is split off is a segment. -/
theorem occupy (h : a.Regular (pre ++ s :: post)) (htop : a.top < 2 ^ 64)
    (hg : size % granule = 0) (hle : size ≤ s.header.size) :
    ∃ a', Arena.occupy s.offset size a = .ok (s.split? size) a' ∧
      a'.Regular (pre ++ s.carve true size post) ∧ a.Reheaded (s.affected size post) a' := by
  by_cases hsplit : headerSize < s.header.size - size
  · rw [Segment.split?, if_pos hsplit]
    exact h.occupy_split htop hsplit hg
  · rw [Segment.split?, if_neg hsplit]
    exact h.occupy_whole htop hsplit hg hle

theorem amend_carve (h : a.Regular (pre ++ s.carve true size post)) (htop : a.top < 2 ^ 64) :
    ∃ k a', Arena.amend s.offset (fun h => { h with used := false }) a = .ok k a' ∧
      a'.Regular (pre ++ s.carve false size post) ∧ a.Reheaded [s.offset] a' := by
  unfold Segment.carve at h ⊢
  by_cases hsplit : headerSize < s.header.size - size
  · rw [if_pos hsplit] at h ⊢
    exact ⟨_, h.amend_mark htop false⟩
  · rw [if_neg hsplit] at h ⊢
    exact ⟨_, h.amend_mark htop false⟩

/-! ## Merging -/

/-- Merging two neighbors succeeds and leaves one segment where they were.  The header of
the higher one is cleared. -/
theorem join (h : a.Regular (pre ++ x :: y :: post)) (htop : a.top < 2 ^ 64) :
    ∃ a', Arena.join x y a = .ok x.offset a' ∧
      a'.Regular (pre ++ x.fuse y :: relink x.offset post) ∧
      a.Reheaded (x.offset :: y.offset :: (post.head?.map Segment.offset).toList) a' ∧
      ∀ i, y.offset ≤ i → i < y.offset + headerSize → a'.memory.get i = 0 := by
  have hy : a.Regular ((pre ++ [x]) ++ y :: post) := by simpa using h
  have hmeets := (List.isChain_append_cons_cons.mp h.meets).2.1
  have hxy : y.offset = x.offset + headerSize + x.header.size := hmeets.offset_eq
  have hstop : y.offset + headerSize + y.header.size ≤ a.top := hy.stop_le
  have habove := Segment.above_of_meets hy.meets
  have hpos : 0 < headerSize := by decide
  have hfuse : (x.fuse y).header.Storable :=
    ⟨by simp only [Segment.fuse]; omega, (h.held x h.mem).storable.prev_lt,
      (hy.held y hy.mem).storable.next_lt⟩
  have hlast : post.head? = none → y.offset = a.last := by
    intro hnone
    cases post with
    | nil => exact (h.final y (by simp)).2.1
    | cons z rest => cases hnone
  have hheld : ∀ t ∈ post, t.In a.memory := fun t ht => hy.held t (by simp [ht])
  obtain ⟨m, hrun, hbehind, hout⟩ := run_linkBack x.offset (by omega) hheld
    (List.isChain_split.mp hy.meets).2.of_cons
  refine ⟨_, run_join hmeets.next_eq (hy.successorSegment htop) hlast hrun hy.next_eq (by omega),
    ?_, ⟨rfl, rfl, fun i hi => ?_⟩, fun i h1 h2 => ?_⟩
  · refine h.replace [x] [] (l := x.fuse y) rfl
      (Segment.stop_fuse hmeets.offset_eq) rfl (List.isChain_singleton _) (fun t ht => ?_)
      (held_fused h.meets (fun t ht => h.held t (List.mem_append_left _ ht)) hfuse hbehind
        fun i hi => hout i fun t ht => .inl ?_)
    · have h1 := h.aligned x h.mem
      have h2 := hy.aligned y hy.mem
      rw [List.mem_singleton.mp ht]
      simp only [Segment.fuse, granule, headerSize] at *
      omega
    · exact Nat.lt_of_lt_of_le hi (habove t (List.mem_of_mem_head? ht))
  · simp only [List.forall_mem_cons, Option.mem_toList] at hi
    obtain ⟨hlow, hhigh, hnext⟩ := hi
    show ((Header.store m x.offset _).zero y.offset headerSize).get i = _
    rw [Memory.get_zero, if_neg (by omega), Header.get_store_of_outside _ hlow,
      hout i fun t ht => hnext _ (by rw [ht]; rfl)]
  · show ((Header.store m x.offset _).zero y.offset headerSize).get i = 0
    rw [Memory.get_zero, if_pos ⟨h1, h2⟩]

/-- Two free neighbors are merged, whichever of them is to be kept. -/
theorem absorb_eq (h : a.Regular (pre ++ x :: y :: post)) (htop : a.top < 2 ^ 64)
    (hx : x.header.used = false) (hy : y.header.used = false) :
    Arena.absorb x.offset (some y.offset) a = Arena.join x y a ∧
      Arena.absorb y.offset (some x.offset) a = Arena.join x y a := by
  have hsecond : a.Regular ((pre ++ [x]) ++ y :: post) := by simpa using h
  have hxy : y.offset = x.stop := (List.isChain_append_cons_cons.mp h.meets).2.1.offset_eq
  have hroom := x.offset_add_le
  simp only [headerSize] at hroom
  constructor
  · unfold Arena.absorb
    dsimp only
    rw [run_bind_ok (run_get a), h.read htop, run_bind_ok (run_lift_ok _ _), hsecond.read htop,
      run_bind_ok (run_lift_ok _ _), if_neg (by simp [hy]), if_neg (by omega)]
  · unfold Arena.absorb
    dsimp only
    rw [run_bind_ok (run_get a), hsecond.read htop, run_bind_ok (run_lift_ok _ _), h.read htop,
      run_bind_ok (run_lift_ok _ _), if_neg (by simp [hx]), if_pos (by omega)]

end Regular

end Arena

end GuardedHeap
