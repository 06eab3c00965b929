/-
  Proofs/Strung.lean --- a string of segments in any memory.

  WHAT THIS FILE IS FOR.  An arena that clients have written to may still hold segments
  that follow each other without gaps and name each other.  `Strung` says that it does and
  asks for nothing else: payloads and records may hold anything, the first segment may
  name a predecessor, and the top may lie above the end of the last one.

  WHAT IS PROVED.  Every header of the string is read, and its links lead to its neighbors.
  The walk visits exactly the string, and the audit passes where the string reaches the
  top and no two free segments are adjacent.  What passes the audit is such a string.
-/
import GuardedHeap.Proofs.Damage.Unmarked
import GuardedHeap.Proofs.Overflow

set_option autoImplicit false

namespace GuardedHeap

/-! ## Segments in memory -/

namespace Segment

variable {s t : Segment}

/-- A memory holds the header of a segment, guard and all. -/
abbrev In (s : Segment) (m : Memory) : Prop := Heads m s.offset s.header

/-- Two segments follow each other without a gap, and each names the other. -/
structure Meets (s t : Segment) : Prop where
  next_eq : s.header.next = some t.offset
  prev_eq : t.header.prev = some s.offset
  offset_eq : t.offset = s.stop

/-- One of two segments is used. -/
def Parts (s t : Segment) : Prop := s.header.used = true ∨ t.header.used = true

theorem offset_add_le (s : Segment) : s.offset + headerSize ≤ s.stop := Nat.le_add_right _ _

/-- Segments that meet come in the order of their offsets, and no two overlap. -/
theorem pairwise_of_meets {ss : List Segment} (h : ss.IsChain Meets) :
    ss.Pairwise fun s t => s.stop ≤ t.offset := by
  induction ss with
  | nil => exact List.Pairwise.nil
  | cons s rest ih =>
    cases rest with
    | nil => exact List.pairwise_singleton _ s
    | cons t rest =>
      obtain ⟨hmeets, hrest⟩ := List.isChain_cons_cons.mp h
      have hpairs := ih hrest
      refine List.Pairwise.cons (fun u hu => ?_) hpairs
      have hstop := hmeets.offset_eq
      rcases List.mem_cons.mp hu with rfl | hu
      · exact Nat.le_of_eq hstop.symm
      · have hle := (List.pairwise_cons.mp hpairs).1 u hu
        have hlow := t.offset_add_le
        omega

section Meeting

variable {pre post : List Segment}

theorem below_of_meets (h : (pre ++ s :: post).IsChain Meets) :
    ∀ t ∈ pre, t.stop ≤ s.offset := by
  obtain ⟨-, -, hcross⟩ := List.pairwise_append.mp (pairwise_of_meets h)
  exact fun t ht => hcross t ht s List.mem_cons_self

theorem above_of_meets (h : (pre ++ s :: post).IsChain Meets) :
    ∀ t ∈ post, s.stop ≤ t.offset := by
  obtain ⟨-, hs, -⟩ := List.pairwise_append.mp (pairwise_of_meets h)
  exact (List.pairwise_cons.mp hs).1

theorem stop_le_of_meets {bound : Nat} (h : (pre ++ s :: post).IsChain Meets)
    (hend : ∀ t ∈ (pre ++ s :: post).getLast?, t.stop ≤ bound) : s.stop ≤ bound := by
  have hlast := List.getLast?_eq_some_getLast (List.cons_ne_nil s post)
  have hfinal := hend ((s :: post).getLast (List.cons_ne_nil s post))
    (by rw [List.getLast?_append, hlast]; rfl)
  rcases List.mem_cons.mp (List.getLast_mem (List.cons_ne_nil s post)) with heq | hmem
  · rwa [heq] at hfinal
  · have := above_of_meets h _ hmem
    have := offset_add_le ((s :: post).getLast (List.cons_ne_nil s post))
    omega

theorem next_eq_of_meets (h : (pre ++ s :: post).IsChain Meets)
    (hend : ∀ t ∈ (pre ++ s :: post).getLast?, t.header.next = none) :
    s.header.next = post.head?.map Segment.offset := by
  cases post with
  | nil => exact hend s (by simp)
  | cons t rest => exact (List.isChain_append_cons_cons.mp h).2.1.next_eq

end Meeting

/-- Another segment with the same offset and the same link back meets what comes before. -/
theorem isChain_concat_congr {pre : List Segment} (h : (pre ++ [s]).IsChain Meets)
    (hoff : t.offset = s.offset) (hprev : t.header.prev = s.header.prev) :
    (pre ++ [t]).IsChain Meets := by
  obtain ⟨hpre, -, hmeets⟩ := List.isChain_append.mp h
  refine List.isChain_append.mpr ⟨hpre, List.isChain_singleton t, fun x hx y hy => ?_⟩
  cases hy
  have hx := hmeets x hx s rfl
  refine ⟨?_, ?_, ?_⟩
  · rw [hoff]
    exact hx.next_eq
  · rw [hprev]
    exact hx.prev_eq
  · rw [hoff]
    exact hx.offset_eq

/-- Another segment that ends in the same place with the same link meets what comes
behind. -/
theorem isChain_cons_congr {post : List Segment} (h : (s :: post).IsChain Meets)
    (hoff : t.offset = s.offset) (hnext : t.header.next = s.header.next)
    (hstop : t.stop = s.stop) : (t :: post).IsChain Meets := by
  obtain ⟨hmeets, hpost⟩ := List.isChain_cons.mp h
  refine List.isChain_cons.mpr ⟨fun x hx => ?_, hpost⟩
  have hx := hmeets x hx
  refine ⟨?_, ?_, ?_⟩
  · rw [hnext]
    exact hx.next_eq
  · rw [hoff]
    exact hx.prev_eq
  · rw [hstop]
    exact hx.offset_eq

end Segment

theorem Arena.read_of_in {a : Arena} {s : Segment} (htop : a.top < 2 ^ 64) (hs : s.In a.memory)
    (hroom : s.offset + headerSize ≤ a.top) : a.read s.offset = .ok s.header := by
  rw [read_of_intact htop hs.guard_eq hroom, ← hs.load_eq]
  rfl

/-! ## Strings of segments -/

/-- An arena holds a string of segments from its first offset to the recorded last one,
which ends at the top or below. -/
structure Arena.Strung (a : Arena) (ss : List Segment) : Prop where
  first : ss.head?.map Segment.offset = some 0
  held : ∀ s ∈ ss, s.In a.memory
  meets : ss.IsChain Segment.Meets
  final : ∀ s ∈ ss.getLast?, s.header.next = none ∧ s.offset = a.last ∧ s.stop ≤ a.top
  aligned : ∀ s ∈ ss, s.header.size % granule = 0
  top_le : a.top ≤ a.window.ceiling

namespace Arena.Strung

variable {a : Arena} {ss pre post : List Segment} {s p : Segment}

theorem top_lt (h : a.Strung ss) : a.top < 2 ^ 64 - 1 := Arena.top_lt h.top_le

theorem ne_nil (h : a.Strung ss) : ss ≠ [] := by
  rintro rfl
  cases h.first

theorem head_offset (h : a.Strung (s :: post)) : s.offset = 0 := Option.some.inj h.first

theorem below (h : a.Strung (pre ++ s :: post)) : ∀ t ∈ pre, t.stop ≤ s.offset :=
  Segment.below_of_meets h.meets

theorem above (h : a.Strung (pre ++ s :: post)) : ∀ t ∈ post, s.stop ≤ t.offset :=
  Segment.above_of_meets h.meets

theorem stop_le (h : a.Strung (pre ++ s :: post)) : s.stop ≤ a.top :=
  Segment.stop_le_of_meets h.meets fun t ht => (h.final t ht).2.2

theorem mem (_ : a.Strung (pre ++ s :: post)) : s ∈ pre ++ s :: post :=
  List.mem_append_right pre List.mem_cons_self

theorem read (h : a.Strung (pre ++ s :: post)) : a.read s.offset = .ok s.header :=
  read_of_in (Nat.lt_of_lt_of_le h.top_lt (Nat.sub_le _ _)) (h.held s h.mem)
    (Nat.le_trans s.offset_add_le h.stop_le)

/-- Offsets are on the granule. -/
theorem offset_aligned (h : a.Strung ss) : ∀ s ∈ ss, s.offset % granule = 0 := by
  have hall : ∀ ss : List Segment, ss.IsChain Segment.Meets →
      (∀ s ∈ ss, s.header.size % granule = 0) → (∀ s ∈ ss.head?, s.offset % granule = 0) →
        ∀ s ∈ ss, s.offset % granule = 0 := by
    intro ss
    induction ss with
    | nil => exact fun _ _ _ s hs => nomatch hs
    | cons s rest ih =>
      intro hmeets hsizes hfirst
      obtain ⟨hnext, hrest⟩ := List.isChain_cons.mp hmeets
      have hs : s.offset % granule = 0 := hfirst s rfl
      refine List.forall_mem_cons.mpr ⟨hs, ih hrest (fun t ht => hsizes t (.tail s ht)) ?_⟩
      intro t ht
      have hsize := hsizes s List.mem_cons_self
      have hstop : t.offset = s.offset + headerSize + s.header.size := (hnext t ht).offset_eq
      simp only [granule, headerSize] at *
      omega
  refine hall ss h.meets h.aligned fun s hs => ?_
  have hfirst := h.first
  rw [hs, Option.map_some, Option.some.injEq] at hfirst
  rw [hfirst]
  rfl

theorem next_eq (h : a.Strung (pre ++ s :: post)) :
    s.header.next = post.head?.map Segment.offset :=
  Segment.next_eq_of_meets h.meets fun t ht => (h.final t ht).1

theorem successor (h : a.Strung (pre ++ s :: post)) :
    a.successor s.offset s.header = .ok (post.head?.map Segment.offset) := by
  have hnext := h.next_eq
  cases post with
  | nil =>
    unfold Arena.successor
    rw [hnext]
    rfl
  | cons t rest =>
    have hmeets := (List.isChain_append_cons_cons.mp h.meets).2.1
    have ht : a.Strung ((pre ++ [s]) ++ t :: rest) := by simpa using h
    have hstop := ht.stop_le
    have hroom := t.offset_add_le
    exact successor_of_link hnext hmeets.offset_eq (by omega)

theorem successorSegment (h : a.Strung (pre ++ s :: post)) :
    a.successorSegment s.offset s.header = .ok post.head? := by
  unfold Arena.successorSegment
  rw [h.successor]
  cases post with
  | nil => rfl
  | cons t rest =>
    have ht : a.Strung ((pre ++ [s]) ++ t :: rest) := by simpa using h
    simp only [bind, Except.bind, List.head?_cons, Option.map_some, ht.read]
    rfl

theorem predecessor (h : a.Strung ((pre ++ [p]) ++ s :: post)) :
    a.predecessor s.offset s.header = .ok (some p.offset) := by
  have hp : a.Strung (pre ++ p :: s :: post) := by simpa using h
  have hmeets := (List.isChain_append_cons_cons.mp hp.meets).2.1
  have hlt : p.offset < s.offset := by
    have := hmeets.offset_eq
    have := p.offset_add_le
    simp only [headerSize] at this
    omega
  exact predecessor_of_link hmeets.prev_eq hlt (hp.offset_aligned p hp.mem)

theorem offset_ne_zero (h : a.Strung ((pre ++ [p]) ++ s :: post)) : s.offset ≠ 0 := by
  have hp := h.below p (by simp)
  have := p.offset_add_le
  simp only [headerSize] at this
  omega

/-- Where memory stays up to the end of a string, the string does. -/
theorem carry {b : Arena} (h : a.Strung ss) (stop : Nat) (hend : ∀ s ∈ ss.getLast?, s.stop ≤ stop)
    (hm : Agree a.memory b.memory 0 stop) (hlast : b.last = a.last) (htop : stop ≤ b.top)
    (hle : b.top ≤ b.window.ceiling) : b.Strung ss where
  first := h.first
  held s hs := by
    have hstop : s.stop ≤ stop := by
      obtain ⟨front, l, rfl⟩ := List.eq_nil_or_concat ss |>.resolve_left h.ne_nil
      rw [List.concat_eq_append] at *
      have hl := hend l (List.getLast?_concat)
      rcases List.mem_append.mp hs with hs | hs
      · have hlow := h.below s hs
        have hroom := l.offset_add_le
        omega
      · rwa [List.mem_singleton.mp hs]
    have hroom := s.offset_add_le
    exact (h.held s hs).congr (hm.mono (Nat.zero_le _) (by omega))
  meets := h.meets
  final s hs := by
    obtain ⟨hnext, hoff, -⟩ := h.final s hs
    exact ⟨hnext, hoff.trans hlast.symm, Nat.le_trans (hend s hs) htop⟩
  aligned := h.aligned
  top_le := hle

/-! ## The walk and the audit -/

theorem segmentAt_eq (h : a.Strung ss) (hs : s ∈ ss) : a.segmentAt s.offset = s := by
  unfold Arena.segmentAt Arena.headerAt
  rw [(h.held s hs).load_eq]

/-- The walk visits the string. -/
theorem walk (h : a.Strung ss) : a.walk = ⟨ss, none⟩ := by
  have htop := h.top_lt
  have hback : (ss.map Segment.offset).map a.segmentAt = ss := by
    rw [List.map_map]
    exact (List.map_congr_left fun s hs => h.segmentAt_eq hs).trans (List.map_id ss)
  have hlinked : (ss.map Segment.offset).IsChain a.Linked := by
    rw [List.isChain_map]
    refine List.IsChain.imp_of_mem_imp (fun s t hs ht hmeets => ?_) h.meets
    have hheader : a.headerAt s.offset = s.header := (h.held s hs).load_eq
    obtain ⟨pre, post, rfl⟩ := List.append_of_mem ht
    have hstop := h.stop_le
    have hroom := t.offset_add_le
    refine ⟨?_, ?_, by omega⟩
    · rw [hheader]
      exact hmeets.next_eq
    · rw [hheader]
      exact hmeets.offset_eq
  have hintact : ∀ off ∈ ss.map Segment.offset, Header.guardAt a.memory off = guardWord := by
    intro off hoff
    obtain ⟨s, hs, rfl⟩ := List.mem_map.mp hoff
    exact (h.held s hs).guard_eq
  have hend : ∀ off ∈ (ss.map Segment.offset).getLast?, (a.headerAt off).next = none := by
    intro off hoff
    rw [List.getLast?_map] at hoff
    obtain ⟨s, hs, rfl⟩ := Option.map_eq_some_iff.mp hoff
    unfold Arena.headerAt
    rw [(h.held s (List.mem_of_getLast? hs)).load_eq]
    exact (h.final s hs).1
  cases ss with
  | nil => exact absurd rfl h.ne_nil
  | cons s rest =>
    have hs : a.Strung ([] ++ s :: rest) := h
    have hstop := hs.stop_le
    have hroom := s.offset_add_le
    unfold Arena.walk
    rw [← h.head_offset]
    refine (walkFrom_of_linked (by omega) hintact hlinked (by omega) hend).trans ?_
    exact congrArg (Walk.mk · none) hback

theorem followed (h : a.Strung ss) (hparts : ss.IsChain Segment.Parts) :
    ss.IsChain Segment.FollowedBy := by
  refine List.isChain_iff_forall_rel_of_append_cons_cons.mpr fun s t xs ys heq => ?_
  have hmeets := List.isChain_iff_forall_rel_of_append_cons_cons.mp h.meets heq
  exact ⟨hmeets.prev_eq, List.isChain_iff_forall_rel_of_append_cons_cons.mp hparts heq⟩

/-- The payloads of a string add up to less than the top. -/
theorem payloads_le (h : a.Strung ss) : payloads ss ≤ a.top := by
  obtain ⟨front, l, rfl⟩ : ∃ front l, ss = front ++ [l] :=
    ⟨_, _, (List.dropLast_append_getLast h.ne_nil).symm⟩
  have hstop := h.stop_le
  have hwalk := h.walk
  have hroom : 0 + headerSize ≤ a.top := by
    have := l.offset_add_le
    omega
  have hfailure : (a.walkFrom 0).failure = none := congrArg Walk.failure hwalk
  obtain ⟨front', l', hsegs, hle, -⟩ := walkFrom_ended hroom hfailure
  have hsegs : front ++ [l] = front' ++ [l'] := (congrArg Walk.segments hwalk).symm.trans hsegs
  obtain ⟨rfl, hl⟩ := List.append_inj' hsegs rfl
  obtain rfl : l = l' := List.singleton_inj.mp hl
  have hdef : l.stop = l.offset + headerSize + l.header.size := rfl
  rw [payloads_append, payloads_singleton]
  omega

/-- The check of the end asks whether the recorded last segment reaches the top. -/
theorem checkLast (h : a.Strung (pre ++ [s])) :
    a.checkLast s =
      if s.stop = a.top then .ok () else .error (a.inconsistent s.offset .lastShort) := by
  have htop := h.top_lt
  have hstop := h.stop_le
  have hdef : s.stop = s.offset + headerSize + s.header.size := rfl
  have hlast := (h.final s (by simp)).2.1
  have hpayload : Word.add s.offset headerSize = .ok (s.offset + headerSize) :=
    Word.add_eq_ok.mpr ⟨rfl, by omega⟩
  have hend : Word.add (s.offset + headerSize) s.header.size = .ok s.stop :=
    Word.add_eq_ok.mpr ⟨rfl, by omega⟩
  unfold Arena.checkLast
  rw [if_neg (not_not_intro hlast), hpayload]
  simp only [bind, Except.bind, hend]
  by_cases htop : s.stop = a.top
  · rw [if_pos htop, if_neg (not_not_intro htop)]
    rfl
  · rw [if_neg htop, if_pos htop]
    rfl

/-- The audit of a string without adjacent free segments asks only whether it reaches the
top. -/
theorem totals (h : a.Strung (pre ++ [s])) (hparts : (pre ++ [s]).IsChain Segment.Parts) :
    a.totals = if s.stop = a.top then .ok ((Totals.start a).through (pre ++ [s]))
      else .error (a.inconsistent s.offset .lastShort) := by
  have htop := h.top_lt
  have hle := h.payloads_le
  have hsmall : (Totals.start a).usedBytes + (Totals.start a).freeBytes +
      payloads (pre ++ [s]) < 2 ^ 64 := by
    show 0 + 0 + payloads (pre ++ [s]) < 2 ^ 64
    omega
  have htally : a.tally none (.start a) (pre ++ [s]) =
      .ok ((Totals.start a).through (pre ++ [s]), some s) := by
    rcases tally_bounded (a := a) none hsmall with ⟨-, hok⟩ | ⟨hnot, -⟩
    · rw [hok, List.getLast?_concat]
      rfl
    · exact absurd (h.followed hparts) hnot
  rw [totals_eq, h.walk, htally]
  show ((a.checkLast s).map fun _ => _) = _
  rw [h.checkLast]
  split <;> rfl

end Arena.Strung

/-- What passes the audit is a string without adjacent free segments that reaches the
top. -/
theorem Arena.Chained.strung {a : Arena} {offs : List Nat} (hc : a.Chained offs)
    (hle : a.top ≤ a.window.ceiling)
    (haligned : ∀ s ∈ offs.map a.segmentAt, s.header.size % granule = 0) :
    a.Strung (offs.map a.segmentAt) ∧ (offs.map a.segmentAt).IsChain Segment.Parts ∧
      ∀ s ∈ (offs.map a.segmentAt).getLast?, s.stop = a.top := by
  have hfinal : ∀ s ∈ (offs.map a.segmentAt).getLast?,
      ∃ off, s = a.segmentAt off ∧ a.Final off := by
    intro s hs
    rw [List.getLast?_map] at hs
    obtain ⟨off, hoff, rfl⟩ := Option.map_eq_some_iff.mp hs
    exact ⟨off, rfl, hc.final off hoff⟩
  refine ⟨⟨?_, ?_, ?_, ?_, haligned, hle⟩, ?_, ?_⟩
  · rw [List.head?_map, hc.first]
    rfl
  · intro s hs
    obtain ⟨off, hoff, rfl⟩ := List.mem_map.mp hs
    exact ⟨hc.intact off hoff, rfl⟩
  · rw [List.isChain_map]
    refine List.isChain_iff_forall_rel_of_append_cons_cons.mpr fun off next xs ys heq => ?_
    have hlinked := List.isChain_iff_forall_rel_of_append_cons_cons.mp hc.linked heq
    have hfollows := List.isChain_iff_forall_rel_of_append_cons_cons.mp hc.followed heq
    exact ⟨hlinked.next_eq, hfollows.prev_eq, hlinked.stop_eq⟩
  · intro s hs
    obtain ⟨off, rfl, hend⟩ := hfinal s hs
    exact ⟨hend.next_eq, hend.last_eq, Nat.le_of_eq hend.stop_eq⟩
  · rw [List.isChain_map]
    exact hc.followed.imp fun _ _ hf => hf.used
  · intro s hs
    obtain ⟨off, rfl, hend⟩ := hfinal s hs
    exact hend.stop_eq

end GuardedHeap
