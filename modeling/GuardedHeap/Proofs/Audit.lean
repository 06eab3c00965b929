/-
  Proofs/Audit.lean --- what an audit accepts.

  WHAT THIS FILE IS FOR.  The audit is the last line of defense against damage, so
  here nothing is known of the memory, the top or the recorded last segment.  A
  `Chained` list of offsets says, without any walk, when segments make up an arena:
  every rule is about one offset or about two that follow each other.

  WHAT IS PROVED.  The audit succeeds exactly where such a list exists, its sums are
  those over the list, and the listing of what is in use agrees with it.
-/
import GuardedHeap.Proofs.Client
import GuardedHeap.Proofs.Listing

set_option autoImplicit false

namespace GuardedHeap

namespace Arena

/-! ## Chains of segments -/

/-- The fields at an offset, whatever the guard. -/
def headerAt (a : Arena) (off : Nat) : Header := Header.load a.memory off

/-- What stands at an offset, as a segment. -/
def segmentAt (a : Arena) (off : Nat) : Segment := ⟨off, a.headerAt off⟩

/-- The segment at an offset ends where its link leads, and a header fits there. -/
structure Linked (a : Arena) (off next : Nat) : Prop where
  next_eq : (a.headerAt off).next = some next
  stop_eq : next = off + headerSize + (a.headerAt off).size
  room : next + headerSize ≤ a.top

/-- A segment names the one in front of it, and they are not both free. -/
structure Follows (a : Arena) (off next : Nat) : Prop where
  prev_eq : (a.headerAt next).prev = some off
  used : (a.headerAt off).used = true ∨ (a.headerAt next).used = true

/-- The segment at an offset is the last one, as recorded, and reaches the top. -/
structure Final (a : Arena) (off : Nat) : Prop where
  next_eq : (a.headerAt off).next = none
  last_eq : off = a.last
  stop_eq : off + headerSize + (a.headerAt off).size = a.top

/-- The offsets of segments that make up an arena. -/
structure Chained (a : Arena) (offs : List Nat) : Prop where
  first : offs.head? = some 0
  intact : ∀ off ∈ offs, Header.guardAt a.memory off = guardWord
  linked : offs.IsChain a.Linked
  followed : offs.IsChain a.Follows
  final : ∀ off ∈ offs.getLast?, a.Final off

instance (a : Arena) : DecidableRel a.Linked := fun off next =>
  decidable_of_iff ((a.headerAt off).next = some next ∧
      next = off + headerSize + (a.headerAt off).size ∧ next + headerSize ≤ a.top)
    ⟨fun h => ⟨h.1, h.2.1, h.2.2⟩, fun h => ⟨h.next_eq, h.stop_eq, h.room⟩⟩

instance (a : Arena) : DecidableRel a.Follows := fun off next =>
  decidable_of_iff ((a.headerAt next).prev = some off ∧
      ((a.headerAt off).used = true ∨ (a.headerAt next).used = true))
    ⟨fun h => ⟨h.1, h.2⟩, fun h => ⟨h.prev_eq, h.used⟩⟩

instance (a : Arena) : DecidablePred a.Final := fun off =>
  decidable_of_iff ((a.headerAt off).next = none ∧ off = a.last ∧
      off + headerSize + (a.headerAt off).size = a.top)
    ⟨fun h => ⟨h.1, h.2.1, h.2.2⟩, fun h => ⟨h.next_eq, h.last_eq, h.stop_eq⟩⟩

instance (a : Arena) : DecidablePred a.Chained := fun offs =>
  decidable_of_iff (offs.head? = some 0 ∧
      (∀ off ∈ offs, Header.guardAt a.memory off = guardWord) ∧ offs.IsChain a.Linked ∧
      offs.IsChain a.Follows ∧ ∀ off ∈ offs.getLast?, a.Final off)
    ⟨fun h => ⟨h.1, h.2.1, h.2.2.1, h.2.2.2.1, h.2.2.2.2⟩,
      fun h => ⟨h.first, h.intact, h.linked, h.followed, h.final⟩⟩

/-- Payload bytes of the segments at some offsets that are used, or that are free. -/
def payloadAt (a : Arena) (used : Bool) (offs : List Nat) : Nat :=
  payloadIn used (offs.map a.segmentAt)

/-- How many of the segments at some offsets are used, or are free. -/
def countAt (a : Arena) (used : Bool) (offs : List Nat) : Nat :=
  countIn used (offs.map a.segmentAt)

/-- The sums over a chain of segments. -/
def sums (a : Arena) (offs : List Nat) : Totals :=
  ⟨a.payloadAt true offs, a.countAt true offs, a.payloadAt false offs, a.countAt false offs,
    a.top, a.mappedPages⟩

section Sums

variable {a : Arena} {off : Nat} {offs : List Nat} {used : Bool}

theorem payloadAt_cons (a : Arena) (used : Bool) (off : Nat) (offs : List Nat) :
    a.payloadAt used (off :: offs) =
      (if (a.headerAt off).used = used then (a.headerAt off).size else 0) +
        a.payloadAt used offs :=
  payloadIn_cons used (a.segmentAt off) _

theorem countAt_cons (a : Arena) (used : Bool) (off : Nat) (offs : List Nat) :
    a.countAt used (off :: offs) =
      (if (a.headerAt off).used = used then 1 else 0) + a.countAt used offs :=
  countIn_cons used (a.segmentAt off) _

/-- Linked segments tile the arena from the first of them up to the end of the last
one. -/
theorem extent_of_linked {last : Nat} (hl : (off :: offs).IsChain a.Linked)
    (hlast : (off :: offs).getLast? = some last) :
    off + a.payloadAt true (off :: offs) + a.payloadAt false (off :: offs) +
      headerSize * (a.countAt true (off :: offs) + a.countAt false (off :: offs)) =
        last + headerSize + (a.headerAt last).size := by
  induction offs generalizing off with
  | nil =>
    cases hlast
    have hbytes : ∀ used, a.payloadAt used [] = 0 := fun _ => rfl
    have hcount : ∀ used, a.countAt used [] = 0 := fun _ => rfl
    simp only [payloadAt_cons, countAt_cons, hbytes, hcount]
    cases (a.headerAt off).used <;> simp [headerSize] <;> omega
  | cons next rest ih =>
    obtain ⟨hlink, hrest⟩ := List.isChain_cons_cons.mp hl
    rw [List.getLast?_cons_cons] at hlast
    have hstop := hlink.stop_eq
    have htail := ih hrest hlast
    rw [payloadAt_cons a true off, payloadAt_cons a false off, countAt_cons a true off,
      countAt_cons a false off]
    simp only [headerSize] at *
    cases hu : (a.headerAt off).used <;> simp <;> omega

end Sums

/-! ## The walk -/

section Walk

variable {a : Arena} {off : Nat} {offs : List Nat}

theorem read_of_intact (ht : a.top < 2 ^ 64) (hg : Header.guardAt a.memory off = guardWord)
    (hs : off + headerSize ≤ a.top) : a.read off = .ok (a.headerAt off) := by
  have hw : Word.add off headerSize = .ok (off + headerSize) :=
    Word.add_eq_ok.mpr ⟨rfl, by omega⟩
  unfold read
  rw [hw]
  simp only [bind, Except.bind, if_neg (Nat.not_lt.mpr hs), if_pos hg]
  rfl

/-- A walk over intact and linked segments visits all of them. -/
theorem walkFrom_of_linked (ht : a.top < 2 ^ 64)
    (hi : ∀ x ∈ off :: offs, Header.guardAt a.memory x = guardWord)
    (hl : (off :: offs).IsChain a.Linked) (hs : off + headerSize ≤ a.top)
    (hf : ∀ x ∈ (off :: offs).getLast?, (a.headerAt x).next = none) :
    a.walkFrom off = ⟨(off :: offs).map a.segmentAt, none⟩ := by
  induction offs generalizing off with
  | nil =>
    have hread := read_of_intact ht (hi off List.mem_cons_self) hs
    have hstep : a.step off = .ok (a.segmentAt off, none) := by
      unfold step successor
      rw [hread]
      simp only [bind, Except.bind, hf off rfl]
      rfl
    rw [walkFrom, hstep]
    rfl
  | cons next rest ih =>
    obtain ⟨hlink, hrest⟩ := List.isChain_cons_cons.mp hl
    have hread := read_of_intact ht (hi off List.mem_cons_self) hs
    have hstep : a.step off = .ok (a.segmentAt off, some next) := by
      unfold step
      rw [hread]
      simp only [bind, Except.bind, successor_of_link hlink.next_eq hlink.stop_eq hlink.room]
      rfl
    have hwalk := ih (fun x hx => hi x (List.mem_cons_of_mem off hx)) hrest hlink.room
      (by rwa [List.getLast?_cons_cons] at hf)
    rw [walkFrom, hstep]
    simp only [hwalk]
    rfl

theorem eq_segmentAt_of_step {s : Segment} {next : Option Nat} (h : a.step off = .ok (s, next)) :
    s = a.segmentAt off := by
  obtain ⟨hoff, hr, -⟩ := step_eq_ok h
  obtain ⟨-, -, hload⟩ := read_eq_ok hr
  rw [segmentAt, headerAt, ← hload, ← hoff]

theorem successor_eq_none {h : Header} (hs : a.successor off h = .ok none) : h.next = none := by
  unfold successor at hs
  split at hs
  · assumption
  · split at hs <;> cases hs

/-- A walk that does not fail has visited intact and linked segments up to one
without a successor. -/
theorem linked_of_walkFrom (a : Arena) (off : Nat) (h : (a.walkFrom off).failure = none) :
    ∃ offs, (a.walkFrom off).segments = (off :: offs).map a.segmentAt ∧
      (∀ x ∈ off :: offs, Header.guardAt a.memory x = guardWord) ∧
      (off :: offs).IsChain a.Linked ∧
      ∀ x ∈ (off :: offs).getLast?, (a.headerAt x).next = none := by
  fun_induction walkFrom a off with
  | case1 off f hstep => cases h
  | case2 off s hstep =>
    obtain ⟨-, hr, hs⟩ := step_eq_ok hstep
    obtain ⟨-, hg, -⟩ := read_eq_ok hr
    have hseg := eq_segmentAt_of_step hstep
    subst hseg
    refine ⟨[], rfl, List.forall_mem_singleton.mpr hg, List.isChain_singleton _, ?_⟩
    intro x hx
    obtain rfl : off = x := Option.some.inj hx
    exact successor_eq_none hs
  | case3 off s next hstep rest ih =>
    obtain ⟨-, hr, hs⟩ := step_eq_ok hstep
    obtain ⟨-, hg, -⟩ := read_eq_ok hr
    have hseg := eq_segmentAt_of_step hstep
    subst hseg
    obtain ⟨hnext, hstop, hroom⟩ := successor_eq_some hs
    obtain ⟨offs, hsegs, hi, hl, hf⟩ := ih h
    refine ⟨next :: offs, ?_, List.forall_mem_cons.mpr ⟨hg, hi⟩,
      List.isChain_cons_cons.mpr ⟨⟨hnext, hstop, hroom⟩, hl⟩, ?_⟩
    · show a.segmentAt off :: rest.segments = _
      rw [hsegs]
      rfl
    · rwa [List.getLast?_cons_cons]

end Walk

/-! ## The sums of the audit -/

end Arena

/-- The sums after one more segment. -/
def Totals.counting (t : Totals) (s : Segment) : Totals :=
  if s.header.used then
    { t with usedBytes := t.usedBytes + s.header.size, usedBlocks := t.usedBlocks + 1 }
  else { t with freeBytes := t.freeBytes + s.header.size, freeBlocks := t.freeBlocks + 1 }

/-- Sums counted on over some segments. -/
def Totals.through (t : Totals) (ss : List Segment) : Totals :=
  { t with
    usedBytes := t.usedBytes + payloadIn true ss
    usedBlocks := t.usedBlocks + countIn true ss
    freeBytes := t.freeBytes + payloadIn false ss
    freeBlocks := t.freeBlocks + countIn false ss }

theorem Totals.through_cons (t : Totals) (s : Segment) (rest : List Segment) :
    t.through (s :: rest) = (t.counting s).through rest := by
  unfold Totals.through Totals.counting
  simp only [payloadIn_cons, countIn_cons]
  cases s.header.used <;> simp [Nat.add_assoc]

/-- A segment that is counted at all is counted right. -/
theorem Totals.add_eq_ok {t r : Totals} {s : Segment} (h : t.add s = .ok r) :
    r = t.counting s := by
  unfold Totals.add at h
  unfold Totals.counting
  by_cases hu : s.header.used = true
  · rw [if_pos hu] at h ⊢
    cases hadd : Word.add t.usedBytes s.header.size with
    | error e =>
      rw [hadd] at h
      cases h
    | ok sum =>
      rw [hadd] at h
      cases h
      rw [(Word.add_eq_ok.mp hadd).1]
  · rw [if_neg hu] at h ⊢
    cases hadd : Word.add t.freeBytes s.header.size with
    | error e =>
      rw [hadd] at h
      cases h
    | ok sum =>
      rw [hadd] at h
      cases h
      rw [(Word.add_eq_ok.mp hadd).1]

/-- A segment is counted as long as the sums stay words. -/
theorem Totals.add_of_lt {t : Totals} {s : Segment}
    (hw : (t.counting s).usedBytes + (t.counting s).freeBytes < 2 ^ 64) :
    t.add s = .ok (t.counting s) := by
  unfold Totals.add
  unfold Totals.counting at hw ⊢
  by_cases hu : s.header.used = true
  · simp only [if_pos hu] at hw ⊢
    have hadd : Word.add t.usedBytes s.header.size = .ok (t.usedBytes + s.header.size) :=
      Word.add_eq_ok.mpr ⟨rfl, by omega⟩
    rw [hadd]
    rfl
  · simp only [if_neg hu] at hw ⊢
    have hadd : Word.add t.freeBytes s.header.size = .ok (t.freeBytes + s.header.size) :=
      Word.add_eq_ok.mpr ⟨rfl, by omega⟩
    rw [hadd]
    rfl

namespace Arena

section Tally

variable {a : Arena} {off : Nat} {offs : List Nat} {t : Totals}

theorem through_start (a : Arena) (offs : List Nat) :
    (Totals.start a).through (offs.map a.segmentAt) = a.sums offs := by
  simp only [Totals.through, Totals.start, sums, payloadAt, countAt, Nat.zero_add]

/-- The check of a segment against the one before it passes exactly where it follows
it. -/
theorem checkAfter_eq_ok_iff {next : Nat} :
    a.checkAfter (some (a.segmentAt off)) (a.segmentAt next) = .ok () ↔ a.Follows off next := by
  constructor
  · intro h
    unfold checkAfter at h
    dsimp only at h
    split at h
    · cases h
    · rename_i hprev
      split at h
      · cases h
      · rename_i hfree
        refine ⟨of_not_not hprev, ?_⟩
        by_contra hused
        obtain ⟨h1, h2⟩ := not_or.mp hused
        exact hfree ⟨Bool.eq_false_iff.mpr h1, Bool.eq_false_iff.mpr h2⟩
  · intro h
    exact checkAfter_of_link h.prev_eq h.used

/-- Segments that pass the audit one after the other follow each other, and are
counted right. -/
theorem follows_of_tally {r : Totals × Option Segment}
    (h : a.tally (some (a.segmentAt off)) t (offs.map a.segmentAt) = .ok r) :
    (off :: offs).IsChain a.Follows ∧
      r = (t.through (offs.map a.segmentAt), (off :: offs).getLast?.map a.segmentAt) := by
  induction offs generalizing off t with
  | nil =>
    cases h
    exact ⟨List.isChain_singleton _, rfl⟩
  | cons next rest ih =>
    rw [List.map_cons, tally] at h
    cases hcheck : a.checkAfter (some (a.segmentAt off)) (a.segmentAt next) with
    | error e =>
      rw [hcheck] at h
      cases h
    | ok u =>
      rw [hcheck] at h
      cases hadd : t.add (a.segmentAt next) with
      | error e =>
        simp only [bind, Except.bind, hadd] at h
        cases h
      | ok t' =>
        simp only [bind, Except.bind, hadd] at h
        obtain ⟨hrest, rfl⟩ := ih h
        refine ⟨List.isChain_cons_cons.mpr ⟨checkAfter_eq_ok_iff.mp hcheck, hrest⟩, ?_⟩
        rw [List.map_cons, Totals.through_cons, ← Totals.add_eq_ok hadd,
          List.getLast?_cons_cons]

/-- Segments that follow each other pass the audit, as long as the sums stay words. -/
theorem tally_of_follows (hf : (off :: offs).IsChain a.Follows)
    (hw : (t.through (offs.map a.segmentAt)).usedBytes +
      (t.through (offs.map a.segmentAt)).freeBytes < 2 ^ 64) :
    a.tally (some (a.segmentAt off)) t (offs.map a.segmentAt) =
      .ok (t.through (offs.map a.segmentAt), (off :: offs).getLast?.map a.segmentAt) := by
  induction offs generalizing off t with
  | nil => rfl
  | cons next rest ih =>
    obtain ⟨hfollows, hrest⟩ := List.isChain_cons_cons.mp hf
    rw [List.map_cons, Totals.through_cons] at hw ⊢
    have hadd : t.add (a.segmentAt next) = .ok (t.counting (a.segmentAt next)) := by
      refine Totals.add_of_lt (Nat.lt_of_le_of_lt (Nat.add_le_add ?_ ?_) hw) <;>
        exact Nat.le_add_right _ _
    rw [tally, checkAfter_eq_ok_iff.mpr hfollows]
    simp only [bind, Except.bind, hadd]
    rw [ih hrest hw, List.getLast?_cons_cons]

theorem tally_first (a : Arena) (t : Totals) (s : Segment) (ss : List Segment) :
    a.tally none t (s :: ss) = (t.add s).bind fun t => a.tally (some s) t ss := rfl

end Tally

/-! ## The whole audit -/

section Totals

variable {a : Arena} {off : Nat} {offs : List Nat} {s : Segment}

/-- The check of the end passes exactly at a recorded last segment that reaches the
top. -/
theorem checkLast_eq_ok_iff (ht : a.top < 2 ^ 64) :
    a.checkLast s = .ok () ↔ s.offset = a.last ∧ s.stop = a.top := by
  unfold Segment.stop
  constructor
  · intro h
    unfold checkLast at h
    split at h
    · cases h
    · rename_i hlast
      cases h1 : Word.add s.offset headerSize with
      | error e =>
        rw [h1] at h
        cases h
      | ok payload =>
        rw [h1] at h
        obtain ⟨rfl, -⟩ := Word.add_eq_ok.mp h1
        simp only [bind, Except.bind] at h
        cases h2 : Word.add (s.offset + headerSize) s.header.size with
        | error e =>
          rw [h2] at h
          cases h
        | ok stop =>
          rw [h2] at h
          obtain ⟨rfl, -⟩ := Word.add_eq_ok.mp h2
          simp only at h
          split at h
          · cases h
          · rename_i hstop
            exact ⟨of_not_not hlast, of_not_not hstop⟩
  · rintro ⟨hlast, hstop⟩
    have h1 : Word.add s.offset headerSize = .ok (s.offset + headerSize) :=
      Word.add_eq_ok.mpr ⟨rfl, by omega⟩
    have h2 : Word.add (s.offset + headerSize) s.header.size = .ok a.top :=
      Word.add_eq_ok.mpr ⟨hstop, by omega⟩
    unfold checkLast
    rw [if_neg (fun hne => hne hlast), h1]
    simp only [bind, Except.bind, h2]
    exact if_neg (fun hne => hne rfl)

/-- The segments of a chain make up the whole arena. -/
theorem Chained.sums_eq (h : a.Chained offs) :
    (a.sums offs).usedBytes + (a.sums offs).freeBytes +
      headerSize * ((a.sums offs).usedBlocks + (a.sums offs).freeBlocks) = a.top := by
  cases offs with
  | nil => cases h.first
  | cons off rest =>
    obtain rfl : off = 0 := Option.some.inj h.first
    have hlast := List.getLast?_eq_some_getLast (List.cons_ne_nil 0 rest)
    have hextent := extent_of_linked h.linked hlast
    have hstop := (h.final _ hlast).stop_eq
    simp only [sums]
    omega

/-- A chain starts below the top. -/
theorem Chained.room (h : a.Chained offs) : headerSize ≤ a.top := by
  cases offs with
  | nil => cases h.first
  | cons off rest =>
    obtain rfl : off = 0 := Option.some.inj h.first
    cases rest with
    | nil =>
      have hstop := (h.final 0 rfl).stop_eq
      omega
    | cons next rest =>
      have hlink := (List.isChain_cons_cons.mp h.linked).1
      have := hlink.room
      omega

/-- The walk of an arena visits the segments of its chain. -/
theorem Chained.walk (ht : a.top < 2 ^ 64) (h : a.Chained offs) :
    a.walk = ⟨offs.map a.segmentAt, none⟩ := by
  have hroom := h.room
  cases offs with
  | nil => cases h.first
  | cons off rest =>
    obtain rfl : off = 0 := Option.some.inj h.first
    exact walkFrom_of_linked ht h.intact h.linked (by omega) fun x hx => (h.final x hx).next_eq

/-- The audit passes over a chain and returns its sums. -/
theorem Chained.totals (ht : a.top < 2 ^ 64) (h : a.Chained offs) :
    a.totals = .ok (a.sums offs) := by
  have hwalk := h.walk ht
  have hsums := h.sums_eq
  cases offs with
  | nil => cases h.first
  | cons off rest =>
    have hlt : (a.sums (off :: rest)).usedBytes + (a.sums (off :: rest)).freeBytes < 2 ^ 64 := by
      omega
    rw [← through_start, List.map_cons, Totals.through_cons] at hlt ⊢
    have hadd : (Totals.start a).add (a.segmentAt off) =
        .ok ((Totals.start a).counting (a.segmentAt off)) := by
      refine Totals.add_of_lt (Nat.lt_of_le_of_lt (Nat.add_le_add ?_ ?_) hlt) <;>
        exact Nat.le_add_right _ _
    have hlast := List.getLast?_eq_some_getLast (List.cons_ne_nil off rest)
    have hfinal := h.final _ hlast
    have hcheck : a.checkLast (a.segmentAt ((off :: rest).getLast (List.cons_ne_nil off rest))) =
        .ok () := (checkLast_eq_ok_iff ht).mpr ⟨hfinal.last_eq, hfinal.stop_eq⟩
    have htally : a.tally none (.start a) ((off :: rest).map a.segmentAt) =
        .ok (((Totals.start a).counting (a.segmentAt off)).through (rest.map a.segmentAt),
          (off :: rest).getLast?.map a.segmentAt) := by
      rw [List.map_cons, tally_first, hadd]
      exact tally_of_follows h.followed hlt
    unfold Arena.totals
    rw [hwalk]
    simp only [bind, Except.bind, htally, hlast, Option.map_some, hcheck]
    rfl

/-- What passes the audit is a chain. -/
theorem chained_of_totals (ht : a.top < 2 ^ 64) {t : Totals} (h : a.totals = .ok t) :
    ∃ offs, a.Chained offs ∧ t = a.sums offs := by
  unfold Arena.totals at h
  simp only [bind, Except.bind] at h
  cases htally : a.tally none (.start a) a.walk.segments with
  | error e =>
    rw [htally] at h
    cases h
  | ok r =>
    rw [htally] at h
    cases hfailure : a.walk.failure with
    | some f =>
      rw [hfailure] at h
      cases h
    | none =>
      obtain ⟨offs, hsegs, hi, hl, hf⟩ := linked_of_walkFrom a 0 hfailure
      have hsegs : a.walk.segments = (0 :: offs).map a.segmentAt := hsegs
      rw [hsegs, List.map_cons, tally_first] at htally
      cases hadd : (Totals.start a).add (a.segmentAt 0) with
      | error e =>
        rw [hadd] at htally
        cases htally
      | ok t' =>
        rw [hadd] at htally
        obtain ⟨hfollows, rfl⟩ := follows_of_tally htally
        have hlast := List.getLast?_eq_some_getLast (List.cons_ne_nil 0 offs)
        rw [hfailure] at h
        simp only [hlast, Option.map_some] at h
        cases hcheck :
          a.checkLast (a.segmentAt ((0 :: offs).getLast (List.cons_ne_nil 0 offs))) with
        | error e =>
          rw [hcheck] at h
          cases h
        | ok u =>
          rw [hcheck] at h
          cases h
          obtain ⟨hrecorded, hstop⟩ := (checkLast_eq_ok_iff ht).mp hcheck
          refine ⟨0 :: offs, ⟨rfl, hi, hl, hfollows, fun off hoff => ?_⟩, ?_⟩
          · obtain rfl := Option.some.inj (hlast.symm.trans hoff)
            exact ⟨hf _ hlast, hrecorded, hstop⟩
          · rw [← through_start, List.map_cons, Totals.through_cons, ← Totals.add_eq_ok hadd]

end Totals

end Arena

/-! ## The listing of what is in use -/

/-- The listing of what is in use agrees with the audit, unless the sum is too large
for its percentage. -/
theorem Machine.run_usedBytes {m : Machine} {offs : List Nat} (hl : m.lock = .unlocked)
    (ho : m.Open) (hc : m.arena.Chained offs) (ht : m.arena.top < 2 ^ 64) (details : Bool)
    (site : CallSite) :
    ∃ j, usedBytes details site m =
      if details = true ∧ 2 ^ 64 ≤ (m.arena.sums offs).usedBytes * 100 then
        .error (.panic .multiplyOverflow) { m with journal := j }
      else .ok (m.arena.sums offs).usedBytes { m with journal := j } := by
  have hwalk := hc.walk ht
  have hused : (m.arena.sums offs).usedBytes = payloadIn true (offs.map m.arena.segmentAt) := rfl
  have hfree : (m.arena.sums offs).freeBytes = payloadIn false (offs.map m.arena.segmentAt) := rfl
  have hw : payloadIn true (offs.map m.arena.segmentAt) +
      payloadIn false (offs.map m.arena.segmentAt) < 2 ^ 64 := by
    have hsums := hc.sums_eq
    omega
  rw [hused]
  cases details with
  | false =>
    exact ⟨_, (run_usedBytes_plain hl ho hwalk hw site).trans (if_neg fun h => nomatch h.1).symm⟩
  | true =>
    have hrun := run_usedBytes_detailed hl ho hwalk hw site
    by_cases hbig : 2 ^ 64 ≤ payloadIn true (offs.map m.arena.segmentAt) * 100
    · rw [if_pos hbig] at hrun
      exact ⟨_, hrun.trans (if_pos ⟨rfl, hbig⟩).symm⟩
    · rw [if_neg hbig] at hrun
      exact ⟨_, hrun.trans (if_neg fun h => hbig h.2).symm⟩

/-! ## The audit is exact -/

/-- Whatever the memory, the top and the recorded last segment are: the audit passes
exactly where a chain of segments makes up the arena.  Its sums are those over the
chain, they add up to the top, and the listing of what is in use agrees with them. -/
theorem Arena.audit_exact {a : Arena} (ht : a.top < 2 ^ 64) :
    (∀ t, a.totals = .ok t ↔ ∃ offs, a.Chained offs ∧ t = a.sums offs) ∧
      ∀ t, a.totals = .ok t →
        t.usedBytes + t.freeBytes + headerSize * (t.usedBlocks + t.freeBlocks) = t.heapSize ∧
        t.heapSize = a.top ∧
        ∀ m : Machine, m.arena = a → m.lock = .unlocked → m.Open → ∀ site,
          (∃ j, Machine.stats site m = .ok t { m with journal := j }) ∧
          ∀ details, ∃ j, Machine.usedBytes details site m =
            if details = true ∧ 2 ^ 64 ≤ t.usedBytes * 100 then
              .error (.panic .multiplyOverflow) { m with journal := j }
            else .ok t.usedBytes { m with journal := j } := by
  refine ⟨fun t => ⟨chained_of_totals ht, ?_⟩, fun t h => ?_⟩
  · rintro ⟨offs, hc, rfl⟩
    exact hc.totals ht
  · obtain ⟨offs, hc, rfl⟩ := chained_of_totals ht h
    refine ⟨hc.sums_eq, rfl, ?_⟩
    rintro m rfl hl ho site
    exact ⟨Machine.run_stats_of_totals hl ho site h, fun details =>
      Machine.run_usedBytes hl ho hc ht details site⟩

/-- The small heap is a chain of three segments, two of them used. -/
theorem World.audit_exact_smallWorld :
    smallWorld.machine.arena.top < 2 ^ 64 ∧ smallWorld.machine.arena.Chained [0, 176, 576] ∧
      smallWorld.machine.arena.totals = .ok ⟨448, 2, 3456, 1, 4096, 1⟩ ∧
      ∃ j, Machine.usedBytes true ⟨1⟩ smallWorld.machine =
        .ok 448 { smallWorld.machine with journal := j } := by
  have ht : smallWorld.machine.arena.top < 2 ^ 64 := by decide +kernel
  have hc : smallWorld.machine.arena.Chained [0, 176, 576] := by decide +kernel
  have htotals := ((Arena.audit_exact ht).1 ⟨448, 2, 3456, 1, 4096, 1⟩).mpr
    ⟨[0, 176, 576], hc, by decide +kernel⟩
  obtain ⟨-, -, hcalls⟩ := (Arena.audit_exact ht).2 _ htotals
  exact ⟨ht, hc, htotals, (hcalls _ rfl (by decide +kernel) (by decide +kernel) ⟨1⟩).2 true⟩

end GuardedHeap
