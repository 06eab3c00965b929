/-
  Proofs/Shortage.lean --- what is left when the frames run out.

  WHAT THIS FILE IS FOR.  Room at the end of the heap is made page by page, and the platform
  may have no frame for a page after it had some for the pages before.  The segments are
  changed only once all pages are there, but the top moves with every page.

  WHAT IS PROVED.  A call from a reachable world in which the frames run out changes no
  byte below the old top.  Where it mapped no page, the audit passes and every live block
  can be given back.  Where it mapped one, the last segment does not reach the top any more:
  the audit reports that, and so does giving a block back, unless this trims the end of the
  heap.
-/
import GuardedHeap.Proofs.Reallocation
import GuardedHeap.Proofs.Strung.Release

set_option autoImplicit false

namespace GuardedHeap

/-- A fault that says that the frames ran out. -/
def Fault.Starved : Fault → Prop
  | .detected (.outOfFrames _) => True
  | .fatal ⟨.outOfFrames _, _⟩ => True
  | _ => False

/-- The top went up, by whole pages if it did, and nothing below changed. -/
structure Arena.Raised (a b : Arena) : Prop where
  last_eq : b.last = a.last
  below : Agree a.memory b.memory 0 a.top
  le_top : a.top ≤ b.top
  le_ceiling : b.top ≤ b.window.ceiling
  top_eq : b.top =
    if pagesBelow b.top = pagesBelow a.top then a.top else pagesBelow b.top * pageSize

namespace Machine

/-- The top went up as long as there were frames, and nothing else changed. -/
structure Halted (m n : Machine) : Prop where
  around : m.Around n
  raised : m.arena.Raised n.arena
  maps : m.platform.Maps (pagesBelow m.arena.top) → n.platform.Maps (pagesBelow n.arena.top)
  drained : n.platform.frames = []

/-- Work that ended in a fault left what is around the heap, and if the frames ran out, the
heap as well. -/
def Stops (m : Machine) (e : Fault) (n : Machine) : Prop := m.Around n ∧ (e.Starved → m.Halted n)

/-- A call that ended because the frames ran out left the heap. -/
def Exhausts (m : Machine) (e : Fault) (n : Machine) : Prop := e.Starved → m.Open ∧ m.Halted n

section Ending

variable {α : Type} {m n : Machine} {bs pre post : List Block} {b : Block} {off size newTop : Nat}
  {site : CallSite}

theorem Refused.halted (h : m.Refused newTop n) : m.Halted n where
  around := h.moved.repaged.beside.toAround
  raised := ⟨h.moved.repaged.beside.last_eq,
    h.moved.below.mono (Nat.le_refl _) (Nat.le_of_eq (Nat.min_eq_left h.le_top).symm), h.le_top,
    by rw [h.moved.repaged.beside.window_eq]; exact h.moved.le_ceiling, h.top_eq⟩
  maps := h.moved.repaged.mapped
  drained := h.drained

theorem Halted.of_journal {j : Array LogLine} (h : Halted { m with journal := j } n) :
    m.Halted n :=
  ⟨h.around.of_journal, h.raised, h.maps, h.drained⟩

theorem Halted.log (h : m.Halted n) (j : Array LogLine) : m.Halted { n with journal := j } :=
  ⟨h.around.log j, h.raised, h.maps, h.drained⟩

theorem Halted.isOpen (h : m.Halted n) (ho : m.Open) : n.Open := by
  unfold Open
  rw [h.around.context_eq]
  exact ho

theorem Halted.left {j : Array LogLine} (hl : m.lock = .unlocked)
    (h : Halted (m.entered site j) n) (j' : Array LogLine) : m.Halted (n.left j') :=
  ⟨h.around.left hl j', h.raised, h.maps, h.drained⟩

/-! ## The work under the lock -/

theorem Placed.stops {e : Fault} (h : Placed size site bs m (.error e n)) (hl : m.arena.Lists bs) :
    m.Stops e n := by
  refine ⟨(h.declined hl).2.around, fun he => ?_⟩
  cases h with
  | tooLong hr hlong => exact he.elim
  | refused hr =>
    cases hr with
    | ceiling hnone hg above => exact he.elim
    | frames hnone hg below short refused => exact refused.halted

theorem ends_takeSegment_stops (hs : m.arena.Sound m.platform bs) (hg : size % granule = 0)
    (site : CallSite) :
    Ends (fun _ n => m.Around n) m.Stops (takeSegment .none size site m) := by
  have hplaced := takeSegment_cases site hs hg
  generalize takeSegment .none size site m = r at hplaced
  cases r with
  | ok off n =>
    cases hplaced with
    | done hf hmax room sound around => exact around
  | error e n => exact hplaced.stops hs.lists

/-- Only a block that has to move can run out of frames. -/
theorem ends_resizeBlock_stops (hs : m.arena.Sound m.platform (pre ++ b :: post))
    (hu : b.used = true) (hfilled : 0 < b.size) (hg : size % granule = 0) (site : CallSite) :
    Ends (fun _ n => m.Around n) m.Stops
      (resizeBlock .none (m.arena.payload (span pre)) size site m) := by
  rcases Nat.lt_or_ge b.size size with hlt | hle
  · by_cases hroom : b.HasRoomBehind size post
    · rw [resizeBlock_grown hs.lists hu hfilled hlt hroom]
      obtain ⟨y, rest, rfl, hy, hfits⟩ := hroom
      rcases Nat.lt_or_ge Word.maxRequest y.size with hlong | hmax
      · rw [run_bind_error (run_growInPlace_tooLong hs.lists hy hlong size)]
        exact ⟨.refl m, fun he => he.elim⟩
      · obtain ⟨n, bs', hrun, -, haround, -⟩ :=
          run_growInPlace hs hu hy hg (Nat.le_of_lt hlt) hfits hmax
        rw [run_bind_ok hrun]
        exact haround
    · have hb : (span pre, b) ∈ live 0 (pre ++ b :: post) :=
        mem_live_iff.mpr ⟨hu, pre, post, rfl, (Nat.zero_add _).symm⟩
      have hmoved := relocate_cases site hs hb hg (Nat.le_of_lt hlt)
      rw [resizeBlock_moved hs.lists hu hfilled hlt hroom]
      generalize relocate .none (span pre) b.size size site m = r at hmoved
      cases hmoved with
      | done hf hmax room sound around moved credited => exact around
      | failed placed => exact placed.stops hs.lists
  · obtain ⟨n, bs', hrun, -, haround, -⟩ := run_shrink hs hu hg hle
    rw [resizeBlock_cut hs.lists hu hfilled hle, run_bind_ok hrun]
    exact haround

/-! ## The calls -/

/-- Where the frames run out under the lock, they ran out in the call. -/
theorem ends_locked_exhausts {body : HeapM α} (hl : m.lock = .unlocked) (line : LogLine)
    (site : CallSite) (hbody : ∀ n : Machine, n.arena = m.arena → n.platform = m.platform →
      Ends (fun _ k => n.Around k) n.Stops (body n)) :
    Ends (fun _ _ => True) m.Exhausts ((do
      log line
      locked site body : HeapM α) m) := by
  let logged : Machine := { m with journal := m.journal.push line }
  rw [run_bind_ok (run_log line m)]
  refine ends_locked (m := logged) hl site (fun _ he => he.elim) fun ho j =>
    (hbody (logged.entered site j) rfl rfl).mono ?_ ?_
  · intro r n hn
    exact ⟨by rw [hn.lock_eq]; rfl, fun _ => trivial⟩
  · rintro e n ⟨haround, hhalts⟩
    have hleft : e.Starved → logged.Halted (n.left n.journal) := fun he =>
      Halted.left (m := logged) hl (hhalts he) _
    exact ⟨by rw [haround.lock_eq]; rfl, fun he => ⟨ho, (hleft he).of_journal⟩⟩

theorem ends_tryAllocate_exhausts (hs : m.Served bs) (size : Nat) (site : CallSite) :
    Ends (fun _ _ => True) m.Exhausts (tryAllocate .none size site m) := by
  by_cases hmax : Word.maxRequest < size
  · unfold tryAllocate
    rw [if_pos hmax]
    exact fun he => he.elim
  · rw [tryAllocate_eq (Nat.le_of_not_lt hmax)]
    refine ends_locked_exhausts hs.lock_eq _ site fun n harena hplatform => ?_
    have hsound := hs.sound_of_eq harena hplatform
    exact (ends_takeSegment_stops hsound (requestSize_aligned size) site).bind fun _ _ hn => hn

/-- Giving a live block back needs no frame. -/
theorem ends_tryFree_exhausts (hs : m.Served bs) (hb : (off, b) ∈ live 0 bs) (site : CallSite) :
    Ends (fun _ _ => True) m.Exhausts (tryFree .none (m.arena.payload off) site m) := by
  by_cases ho : m.Open
  · exact (ends_tryFree hs hb site).mono (fun _ _ _ => trivial) fun _ _ h => absurd ho h.1
  · let logged : Machine :=
      { m with journal := m.journal.push (.freeing (m.arena.payload off) site) }
    have hclosed : tryFree .none (m.arena.payload off) site m =
        .error (.detected (.interruptsDisabled m.context.cpu)) logged :=
      (run_bind_ok (run_log _ m)).trans (run_bind_error (run_enter_closed (m := logged) ho site))
    rw [hclosed]
    exact fun he => he.elim

theorem ends_tryResize_exhausts (hs : m.Served bs) (hb : (off, b) ∈ live 0 bs)
    (hmax : size ≤ Word.maxRequest) (site : CallSite) :
    Ends (fun _ _ => True) m.Exhausts (tryResize .none (m.arena.payload off) size site m) := by
  obtain ⟨hu, pre, post, rfl, hoff⟩ := mem_live_iff.mp hb
  rw [Nat.zero_add] at hoff
  subst hoff
  rw [tryResize_eq hmax]
  refine ends_locked_exhausts hs.lock_eq _ site fun n harena hplatform => ?_
  have hsound := hs.sound_of_eq harena hplatform
  rw [← harena]
  exact ends_resizeBlock_stops hsound hu (hs.filled _ hb) (Word.roundUp_mod size) site

theorem ends_reporting_exhausts {body : HeapM α} (site : CallSite)
    (hbody : Ends (fun _ _ => True) m.Exhausts (body m)) :
    Ends (fun _ _ => True) m.Exhausts (reporting site body m) := by
  refine ends_reporting site (fun error n j h he => ?_) hbody
  have hdetected : (Fault.detected error).Starved := by
    cases error <;> exact he
  obtain ⟨ho, hhalted⟩ := h hdetected
  exact ⟨ho, hhalted.log j⟩

/-- A request for a block or for more of one leaves the heap when the frames run out. -/
theorem ends_allocate_exhausts (hs : m.Served bs) (size : Nat) (site : CallSite) :
    Ends (fun _ _ => True) m.Exhausts (allocate .none size site m) :=
  ends_reporting_exhausts site (ends_tryAllocate_exhausts hs size site)

theorem ends_reallocate_exhausts (hs : m.Served bs) (hb : (off, b) ∈ live 0 bs) (size : Nat)
    (site : CallSite) :
    Ends (fun _ _ => True) m.Exhausts (reallocate .none (m.arena.payload off) size site m) := by
  have haddress := (hs.payload_eq hb).2
  refine ends_reporting_exhausts site ?_
  unfold tryReallocate
  by_cases hmax : Word.maxRequest < size
  · rw [if_pos hmax]
    exact fun he => he.elim
  · rw [if_neg hmax]
    by_cases hzero : size = 0
    · rw [if_pos hzero, if_pos haddress]
      exact (ends_tryFree_exhausts hs hb site).bind fun _ _ _ => trivial
    · rw [if_neg hzero, if_neg haddress]
      exact ends_tryResize_exhausts hs hb (Nat.le_of_not_lt hmax) site

/-! ## What is left -/

/-- A heap between calls is a string without adjacent free segments that reaches the top,
and its first segment names none. -/
theorem Served.strung (hs : m.Served bs) :
    ∃ ss, m.arena.Strung ss ∧ ss.IsChain Segment.Parts ∧ reach ss = some m.arena.top ∧
      (m.arena.headerAt 0).prev = none := by
  have hl := hs.sound.lists
  have hword : m.arena.top < 2 ^ 64 := by
    have := Arena.top_lt hl.top_le
    omega
  have htotals := hl.totals hs.sound.orderly.separated
  obtain ⟨offs, hc, -⟩ := Arena.chained_of_totals hword htotals
  have hwalk : m.arena.walk.segments = offs.map m.arena.segmentAt :=
    congrArg Walk.segments (hc.walk hword)
  have haligned : ∀ s ∈ offs.map m.arena.segmentAt, s.header.size % granule = 0 := by
    rw [← hwalk]
    intro s hseg
    obtain ⟨pre, b, post, rfl, rfl⟩ := hl.mem_walk_iff.mp hseg
    exact hl.aligned b (by simp)
  obtain ⟨hstrung, hparts, hend⟩ := hc.strung hl.top_le haligned
  refine ⟨_, hstrung, hparts, ?_, ?_⟩
  · unfold reach
    rw [List.getLast?_eq_some_getLast hstrung.ne_nil] at hend ⊢
    exact congrArg some (hend _ rfl)
  · obtain ⟨b, rest, rfl⟩ := List.exists_cons_of_ne_nil hl.ne_nil
    have hfirst : m.arena.Lists ([] ++ b :: rest) := hl
    have hread := (Arena.read_eq_ok hfirst.read).2.2
    have hheader : m.arena.headerAt 0 = b.headerIn [] rest := hread.symm
    rw [hheader]
    rfl

theorem Halted.strung {ss : List Segment} (h : m.Halted n) (hs : m.arena.Strung ss)
    (hreach : reach ss = some m.arena.top) : n.arena.Strung ss := by
  refine hs.carry m.arena.top (fun s hlast => ?_) h.raised.below h.raised.last_eq
    h.raised.le_top h.raised.le_ceiling
  unfold reach at hreach
  rw [hlast, Option.map_some, Option.some.injEq] at hreach
  exact Nat.le_of_eq hreach

end Ending

/-- Giving a block back trims what is left: no live block is behind it, and the heap had
grown beyond the reserved minimum. -/
def Reclaims (m : Machine) (s : Segment) : Prop :=
  m.arena.window.floor < m.arena.top ∧
    ∀ t ∈ m.arena.walk.segments, t.header.used = true → t.offset ≤ s.offset

end Machine

/-- No segment behind one is used where none that is used is behind it. -/
theorem Arena.Strung.usedIn_eq_nil_iff {a : Arena} {pre post : List Segment} {s : Segment}
    (h : a.Strung (pre ++ s :: post)) :
    usedIn post = [] ↔
      ∀ t ∈ pre ++ s :: post, t.header.used = true → t.offset ≤ s.offset := by
  unfold usedIn
  rw [List.map_eq_nil_iff, List.filter_eq_nil_iff]
  constructor
  · intro hnone t ht hu
    rcases List.mem_append.mp ht with ht | ht
    · have hlow := h.below t ht
      have hroom := t.offset_add_le
      omega
    · rcases List.mem_cons.mp ht with rfl | ht
      · exact Nat.le_refl _
      · exact absurd hu (hnone t ht)
  · intro hall t ht hu
    have hle := hall t (List.mem_append_right _ (.tail s ht)) hu
    have hhigh := h.above t ht
    have hroom := s.offset_add_le
    simp only [headerSize] at hroom
    omega

namespace Machine

/-- What the audit and giving live blocks back come to in a heap that was left with the
segments it had and a top that may have moved up. -/
structure Settles (m n : Machine) : Prop where
  walk_eq : n.arena.walk = m.arena.walk
  /-- the audit passes where no page was mapped -/
  passes : n.arena.top = m.arena.top → ∀ site, ∃ t k, stats site n = .ok t k
  /-- and else says that the last segment does not reach the top -/
  short : n.arena.top ≠ m.arena.top → ∀ site,
    n.Reports site (.inconsistent (n.arena.addr n.arena.last) .lastShort) (stats site n)
  /-- a block is given back where no page was mapped, or where that trims what is left -/
  frees : ∀ s ∈ n.arena.walk.segments, s.header.used = true →
    n.arena.top = m.arena.top ∨ m.Reclaims s → ∀ site,
      ∃ k, free .none (n.arena.payload s.offset) site n = .ok true k ∧ n.Withdraws s k
  /-- and else it is gone, and the report says that the last segment does not reach the
  top -/
  loses : ∀ s ∈ n.arena.walk.segments, s.header.used = true →
    n.arena.top ≠ m.arena.top → ¬ m.Reclaims s → ∀ site,
      ∃ k, free .none (n.arena.payload s.offset) site n =
          .error (.fatal ⟨.inconsistent (k.arena.addr k.arena.last) .lastShort,
            ⟨site, n.context.id, n.context.cpu⟩⟩) k ∧
        k.arena.liveBlocks = n.arena.liveBlocks.filter fun x => x.1 ≠ s.offset

section Settling

variable {m n : Machine} {bs : List Block} {s : Segment}

/-- Giving a live block back succeeds where no page was mapped or the end is trimmed. -/
theorem Halted.free_cases (h : m.Halted n) (hs : m.Served bs) (ho : m.Open)
    (hseg : s ∈ n.arena.walk.segments) (hu : s.header.used = true) (site : CallSite) :
    (n.arena.top = m.arena.top ∨ m.Reclaims s →
      ∃ k, free .none (n.arena.payload s.offset) site n = .ok true k ∧ n.Withdraws s k) ∧
    (n.arena.top ≠ m.arena.top → ¬ m.Reclaims s →
      ∃ k, free .none (n.arena.payload s.offset) site n =
          .error (.fatal ⟨.inconsistent (k.arena.addr k.arena.last) .lastShort,
            ⟨site, n.context.id, n.context.cpu⟩⟩) k ∧
        k.arena.liveBlocks = n.arena.liveBlocks.filter fun x => x.1 ≠ s.offset) := by
  obtain ⟨ss, hold, hparts, hreach, hprev⟩ := hs.strung
  have hnew := h.strung hold hreach
  have hl : n.lock = .unlocked := h.around.lock_eq.trans hs.lock_eq
  have hfirst : n.arena.headerAt 0 = m.arena.headerAt 0 := by
    obtain ⟨l, rest, rfl⟩ := List.exists_cons_of_ne_nil hold.ne_nil
    rw [hnew.headerAt_zero, hold.headerAt_zero]
  have hclear : ∀ v, (n.arena.headerAt 0).prev = some v → ¬ n.arena.Heeds s := fun v hv => by
    rw [hfirst, hprev] at hv
    cases hv
  have hpos : 0 < s.header.size := by
    rw [hnew.walk, ← hold.walk] at hseg
    obtain ⟨pre, b, post, rfl, rfl⟩ := hs.sound.lists.mem_walk_iff.mp hseg
    exact hs.filled _ (mem_live_iff.mpr ⟨hu, pre, post, rfl, (Nat.zero_add _).symm⟩)
  rw [hnew.walk] at hseg
  obtain ⟨pre, post, rfl⟩ := List.append_of_mem hseg
  obtain ⟨k, ss, htrims, hfree, hcases⟩ :=
    free_strung hl (h.isOpen ho) hnew hparts hreach hu hpos hclear site
  have hreclaims : m.Reclaims s ↔ usedIn post = [] ∧ n.arena.window.floor < m.arena.top := by
    unfold Reclaims
    rw [hold.usedIn_eq_nil_iff, h.around.window_eq, hold.walk]
    exact And.comm
  have hdone : reach ss = some k.arena.top →
      ∃ k, free .none (n.arena.payload s.offset) site n = .ok true k ∧ n.Withdraws s k :=
    fun hend => ⟨k, hfree.trans (if_pos hend), htrims.withdraws hnew hl (h.isOpen ho) hend⟩
  rw [hreclaims]
  rcases hcases with ⟨hnone, hfloor, hend⟩ | ⟨hno, htop, hend⟩
  · exact ⟨fun _ => hdone hend, fun _ hnot => absurd ⟨hnone, hfloor⟩ hnot⟩
  · refine ⟨fun hor => hdone ?_, fun hne _ => ⟨k, hfree.trans (if_neg fun heq => hne ?_), ?_⟩⟩
    · rw [hend, htop, hor.resolve_right hno]
    · rw [← htop]
      exact (Option.some.inj (hend.symm.trans heq)).symm
    · exact htrims.liveBlocks_eq hnew

theorem Halted.settles (h : m.Halted n) (hs : m.Served bs) (ho : m.Open) : m.Settles n := by
  obtain ⟨ss, hold, hparts, hreach, -⟩ := hs.strung
  have hnew := h.strung hold hreach
  have haudit := stats_strung (h.around.lock_eq.trans hs.lock_eq) (h.isOpen ho) hnew hparts hreach
  exact ⟨hnew.walk.trans hold.walk.symm, fun heq site => (haudit site).1 heq.symm,
    fun hne site => (haudit site).2 hne.symm,
    fun s hseg hu hor site => (h.free_cases hs ho hseg hu site).1 hor,
    fun s hseg hu hne hnot site => (h.free_cases hs ho hseg hu site).2 hne hnot⟩

end Settling

end Machine

namespace World

open Machine

/-- Where the frames run out in a call from a reachable world, nothing but the top moved.
If no page was mapped, the audit passes and every live block can be given back.  If one
was, the audit reports that the last segment does not reach the top, and so does giving a
live block back, unless that trims the end of the heap. -/
theorem Reachable.exhausted {w : World} (h : w.Reachable) {size page : Nat} {site : CallSite}
    {who : Attribution} {n : Machine} {r : EStateM.Result Fault Machine Nat}
    (hcall : r = allocate .none size site w.machine ∨
      ∃ s ∈ w.machine.arena.walk.segments, s.header.used = true ∧
        r = reallocate .none (w.machine.arena.payload s.offset) size site w.machine)
    (hr : r = .error (.fatal ⟨.outOfFrames page, who⟩) n) :
    w.machine.Halted n ∧ w.machine.Settles n := by
  obtain ⟨bs, hheld⟩ := h.held
  have hserved := hheld.served
  have hends : Ends (fun _ _ => True) w.machine.Exhausts r := by
    rcases hcall with rfl | ⟨s, hs, hu, rfl⟩
    · exact ends_allocate_exhausts hserved size site
    · obtain ⟨pre, b, post, rfl, rfl⟩ := hserved.sound.lists.mem_walk_iff.mp hs
      exact ends_reallocate_exhausts hserved
        (mem_live_iff.mpr ⟨hu, pre, post, rfl, (Nat.zero_add _).symm⟩) size site
  rw [hr] at hends
  obtain ⟨ho, hhalted⟩ := hends trivial
  exact ⟨hhalted, hhalted.settles hserved ho⟩

/-- The small heap with one block after a request for which two of three frames were
there. -/
def smallHalted : Machine := after (allocate .none 12288 ⟨2⟩) smallBlock.machine

theorem allocate_smallHalted : allocate .none 12288 ⟨2⟩ smallBlock.machine =
    .error (.fatal ⟨.outOfFrames 0x10003, ⟨⟨2⟩, ⟨1⟩, 0⟩⟩) smallHalted :=
  run_of_fails (by decide +kernel)

/-- Two pages were mapped, so that the audit does not pass. -/
theorem exhausted_smallHalted :
    smallBlock.machine.Halted smallHalted ∧
      Reports smallHalted ⟨3⟩ (.inconsistent 0x100000b0 .lastShort) (stats ⟨3⟩ smallHalted) := by
  obtain ⟨hhalted, hsettles⟩ :=
    Reachable.exhausted reachable_smallBlock (.inl rfl) allocate_smallHalted
  have hlast : smallHalted.arena.addr smallHalted.arena.last = 0x100000b0 := by decide +kernel
  have hshort := hsettles.short (by decide +kernel) ⟨3⟩
  rw [hlast] at hshort
  exact ⟨hhalted, hshort⟩

/-- So the list need not be consistent with the top: the audit need not pass. -/
theorem not_consistent_smallHalted :
    ¬ ∀ w : World, w.Reachable → ∀ size page site who n,
      allocate .none size site w.machine = .error (.fatal ⟨.outOfFrames page, who⟩) n →
      (∃ t k, stats site n = .ok t k) ∧
        ∀ s ∈ n.arena.walk.segments, s.header.used = true →
          ∃ k, free .none (n.arena.payload s.offset) site n = .ok true k := by
  intro h
  obtain ⟨⟨t, k, hok⟩, -⟩ := h smallBlock reachable_smallBlock _ _ _ _ _ allocate_smallHalted
  have hfails : fails (stats ⟨2⟩) smallHalted
      (.fatal ⟨.inconsistent 0x100000b0 .lastShort, ⟨⟨2⟩, ⟨1⟩, 0⟩⟩) = true := by decide +kernel
  cases hok.symm.trans (run_of_fails hfails)

end World

end GuardedHeap
