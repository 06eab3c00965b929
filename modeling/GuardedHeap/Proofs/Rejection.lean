/-
  Proofs/Rejection.lean --- addresses that no client holds.

  WHAT THIS FILE IS FOR.  A client may free an address twice, or pass one that was
  never handed out.  The heap finds the header in front of such an address by
  arithmetic and believes its guard, so a guard that was left behind by a segment that
  is gone would let the call through.

  WHAT IS PROVED.  Outside what clients write themselves, and the bytes of headers that
  have no value, a guard stands in front of the segments of the row and nowhere else.  So
  every address that is not the payload of a live block is refused, with an error that
  says what is wrong with it, and nothing but the journal changes.  Where a byte without
  a value spells the guard, it need not be.
-/
import GuardedHeap.Proofs.Isolation
import Mathlib.Logic.Relation

set_option autoImplicit false

namespace GuardedHeap

/-! ## Words that are not guards -/

/-- The low bytes of a word. -/
theorem Memory.word_low (m : Memory) (off low high : Nat) :
    m.word off low = m.word off (low + high) % 256 ^ low := by
  induction low generalizing off with
  | zero => rw [Nat.pow_zero, Nat.mod_one, word]
  | succ low ih =>
    have hbyte : (m.get off).toNat < 256 := (m.get off).toNat_lt
    have hdiv : ((m.get off).toNat + 256 * m.word (off + 1) (low + high)) / 256 =
        m.word (off + 1) (low + high) := by omega
    rw [Nat.add_right_comm, word, word, ih (off + 1), Nat.pow_succ, Nat.mul_comm (256 ^ low),
      Nat.mod_mul, hdiv]
    omega

theorem Header.guardAt_eq_mod (m : Memory) (off : Nat) :
    guardAt m off = m.word off 8 % 2 ^ 32 :=
  m.word_low off 4 4

/-- Within a header, no word but the first spells the guard: links do not, and neither
do the recorded call site and context, as long as they are other words.  Where no context
is recorded, its word has no value and might. -/
theorem Heads.guardAt_ne {m : Memory} {off d : Nat} {h : Header} (hh : Heads m off h)
    (hprev : ∀ p ∈ h.prev, p % granule = 0)
    (hsite : ∀ s ∈ h.allocatedAt, Header.siteWord (some s) % 2 ^ 32 ≠ guardWord)
    (howner : ∀ c ∈ h.allocatedBy, c.value.toNat % 2 ^ 32 ≠ guardWord)
    (hblank : h.allocatedBy = none → Header.guardAt m (off + 48) ≠ guardWord)
    (hd : d % granule = 0) (hpos : 0 < d) (hlt : d < headerSize) :
    Header.guardAt m (off + d) ≠ guardWord := by
  obtain rfl | rfl | rfl : d = 16 ∨ d = 32 ∨ d = 48 := by
    simp only [granule, headerSize] at *
    omega
  · -- the link back
    have hlink : (Header.load m off).prev = h.prev := by rw [hh.load_eq]
    simp only [Header.load] at hlink
    rw [Header.guardAt_eq_mod, ← Header.linkWord_linkOfWord (m.word (off + 16) 8), hlink]
    cases hp : h.prev with
    | none => decide
    | some p =>
      have hmod := hprev p hp
      simp only [Header.linkWord, guardWord, granule] at *
      omega
  · -- where it was allocated
    have hword : (Header.load m off).allocatedAt = h.allocatedAt := by rw [hh.load_eq]
    simp only [Header.load, Header.siteOfWord] at hword
    rw [Header.guardAt_eq_mod]
    split at hword
    · rename_i hzero
      rw [hzero]
      decide
    · have hne := hsite _ hword.symm
      simp only [Header.siteWord, guardWord, UInt32.toNat_ofNat'] at hne ⊢
      omega
  · -- who allocated it
    have hword : (Header.load m off).allocatedBy = h.allocatedBy := by rw [hh.load_eq]
    simp only [Header.load] at hword
    split at hword
    · exact hblank hword.symm
    · rw [Header.guardAt_eq_mod]
      have hne := howner _ hword.symm
      have hlt := m.word_lt (off + 48) 8
      simp only [UInt64.toNat_ofNat'] at hne
      omega

/-! ## Where guards stand -/

theorem exists_around {bs : List Block} (off : Nat) (h : off < span bs) :
    ∃ pre b post, bs = pre ++ b :: post ∧ span pre ≤ off ∧ off < span pre + b.extent := by
  induction bs generalizing off with
  | nil => exact absurd h (Nat.not_lt_zero _)
  | cons b rest ih =>
    rw [span_cons] at h
    by_cases hin : off < b.extent
    · exact ⟨[], b, rest, rfl, Nat.zero_le _, by rw [span_nil, Nat.zero_add]; exact hin⟩
    · obtain ⟨pre, c, post, rfl, hlow, hhigh⟩ := ih (off - b.extent) (by omega)
      refine ⟨b :: pre, c, post, rfl, ?_, ?_⟩ <;> rw [span_cons] <;> omega

namespace Arena

/-- Clients and call sites do not spell the guard: not in a payload, where a header
could start, and not in what is recorded of a block. -/
structure Unspelled (a : Arena) : Prop where
  payload : ∀ s ∈ a.walk.segments, s.header.used = true → ∀ off < s.stop,
    s.offset + headerSize ≤ off → off % granule = 0 → Header.guardAt a.memory off ≠ guardWord
  site : ∀ s ∈ a.walk.segments, ∀ c ∈ s.header.allocatedAt,
    Header.siteWord (some c) % 2 ^ 32 ≠ guardWord
  context : ∀ s ∈ a.walk.segments, ∀ c ∈ s.header.allocatedBy,
    c.value.toNat % 2 ^ 32 ≠ guardWord

instance (a : Arena) : Decidable a.Unspelled :=
  decidable_of_iff
    ((∀ s ∈ a.walk.segments, s.header.used = true → ∀ off < s.stop,
        s.offset + headerSize ≤ off → off % granule = 0 →
          Header.guardAt a.memory off ≠ guardWord) ∧
      (∀ s ∈ a.walk.segments, ∀ c ∈ s.header.allocatedAt,
        Header.siteWord (some c) % 2 ^ 32 ≠ guardWord) ∧
      ∀ s ∈ a.walk.segments, ∀ c ∈ s.header.allocatedBy, c.value.toNat % 2 ^ 32 ≠ guardWord)
    ⟨fun h => ⟨h.1, h.2.1, h.2.2⟩, fun h => ⟨h.payload, h.site, h.context⟩⟩

/-- Nor does the word for a context that is not recorded, which may hold anything. -/
def BlankUnspelled (a : Arena) : Prop :=
  ∀ s ∈ a.walk.segments, s.header.allocatedBy = none →
    Header.guardAt a.memory (s.offset + 48) ≠ guardWord

instance (a : Arena) : Decidable a.BlankUnspelled :=
  inferInstanceAs (Decidable (∀ s ∈ a.walk.segments, s.header.allocatedBy = none →
    Header.guardAt a.memory (s.offset + 48) ≠ guardWord))

/-- An address is the payload of a block that is in use. -/
def LiveAt (a : Arena) (address : Nat) : Prop :=
  ∃ s ∈ a.walk.segments, s.header.used = true ∧ a.payload s.offset = address

instance (a : Arena) (address : Nat) : Decidable (a.LiveAt address) :=
  inferInstanceAs (Decidable
    (∃ s ∈ a.walk.segments, s.header.used = true ∧ a.payload s.offset = address))

section Lists

variable {a : Arena} {bs pre post : List Block} {b : Block} {off : Nat}

theorem Lists.prev_aligned (h : a.Lists (pre ++ b :: post)) :
    ∀ p ∈ (b.headerIn pre post).prev, p % granule = 0 := by
  intro p hp
  rcases List.eq_nil_or_concat pre with rfl | ⟨xs, x, rfl⟩
  · cases hp
  · rw [List.concat_eq_append] at hp h
    have hp : lastLink none 0 (xs ++ [x]) = some p := hp
    rw [lastLink_concat, Nat.zero_add] at hp
    cases hp
    exact span_aligned fun y hy => h.aligned y (by simp [hy])

/-- No guard stands inside a block. -/
theorem Lists.guardAt_ne_inside (h : a.Lists (pre ++ b :: post)) (hclear : b.Clear)
    (hu : a.Unspelled) (hb : a.BlankUnspelled) (ha : off % granule = 0) (hlow : span pre < off)
    (hhigh : off < span pre + b.extent) : Header.guardAt a.memory off ≠ guardWord := by
  have hmem : (⟨span pre, b.headerIn pre post⟩ : Segment) ∈ a.walk.segments :=
    h.mem_walk_iff.mpr ⟨pre, b, post, rfl, rfl⟩
  have hpre := h.span_pre_aligned
  have hsize := h.aligned b (by simp)
  have he : b.extent = headerSize + b.size := rfl
  by_cases hheader : off < span pre + headerSize
  · -- in the header
    have hplace : off = span pre + (off - span pre) := by omega
    rw [hplace]
    exact h.stands.heads.guardAt_ne h.prev_aligned (hu.site _ hmem) (hu.context _ hmem)
      (hb _ hmem) (by simp only [granule] at *; omega) (by omega) (by omega)
  · cases hused : b.used with
    | true =>
      -- in memory a client writes to
      exact hu.payload _ hmem hused off (by show off < span pre + headerSize + b.size; omega)
        (Nat.le_of_not_lt hheader) ha
    | false =>
      -- in free memory, which is clear
      have hzero : ∀ k < 4, a.memory.get (off + k) = 0 := by
        intro k hk
        have hplace : off + k = span pre + headerSize + (off + k - (span pre + headerSize)) := by
          omega
        have hin : off + k - (span pre + headerSize) < b.size := by
          simp only [granule, headerSize] at *
          omega
        rw [hplace, h.stands.payload _ hin]
        exact hclear hused _ hin
      have hword : Header.guardAt a.memory off = 0 % 256 ^ 4 :=
        Memory.word_eq_mod fun k hk => by rw [hzero k hk]; simp [Memory.byteOf]
      rw [hword]
      decide

/-- Below the top, a guard stands at the offsets of the row and nowhere else. -/
theorem Lists.guardAt_ne (h : a.Lists bs) (hclear : ∀ b ∈ bs, b.Clear) (hu : a.Unspelled)
    (hb : a.BlankUnspelled) (ha : off % granule = 0) (hs : off < a.top)
    (hne : ∀ s ∈ a.walk.segments, s.offset ≠ off) : Header.guardAt a.memory off ≠ guardWord := by
  obtain ⟨pre, b, post, rfl, hlow, hhigh⟩ := exists_around off (h.top_eq ▸ hs)
  have hstart := hne _ (h.mem_walk_iff.mpr ⟨pre, b, post, rfl, rfl⟩)
  exact h.guardAt_ne_inside (hclear b (by simp)) hu hb ha (Nat.lt_of_le_of_ne hlow hstart) hhigh

end Lists

/-! ## The error for an address -/

/-- What is wrong with an address that is not the payload of a live block: it lies
outside, it lies between two granules, there is a free segment, or there is none. -/
def rejection (a : Arena) (address : Nat) (whenFree : Segment → HeapError) : HeapError :=
  if address < a.window.base + headerSize ∨ a.window.base + a.top ≤ address then
    .addressOutOfRange address a.window.base (a.window.base + a.top)
  else if (address - a.window.base) % granule ≠ 0 then .misalignedAddress address
  else
    let off := address - a.window.base - headerSize
    match a.walk.segments.find? fun s => s.offset = off ∧ s.header.used = false with
    | some s => whenFree s
    | none => .corrupted (a.window.base + off) (Header.sizeAt a.memory off)
        (Header.guardAt a.memory off)

/-- The error for a free segment that is to be freed. -/
def freedTwice (a : Arena) (s : Segment) : HeapError :=
  .doubleFree (a.addr s.offset) s.header.size s.header.freedAt

/-- The error for a free segment that is to be resized. -/
def notInUse (a : Arena) (s : Segment) : HeapError := .notAllocated (a.addr s.offset)

/-- An address that is not the payload of a live block is refused where its segment is
looked for or where its header is read, or its segment is a free one. -/
theorem Lists.rejected {a : Arena} {bs : List Block} (h : a.Lists bs)
    (hclear : ∀ b ∈ bs, b.Clear) (hu : a.Unspelled) (hb : a.BlankUnspelled) {address : Nat}
    (hdead : ¬ a.LiveAt address) (whenFree : Segment → HeapError) :
    a.locate address = .error (.detected (a.rejection address whenFree)) ∨
      ∃ off, a.locate address = .ok off ∧
        (a.read off = .error (.detected (a.rejection address whenFree)) ∨
          ∃ s : Segment, s.offset = off ∧ a.read off = .ok s.header ∧ s.header.used = false ∧
            a.rejection address whenFree = whenFree s) := by
  have hstart : a.addr 0 = a.window.base := addr_eq h.top_le (Nat.zero_le _)
  have hstop : a.addr a.top = a.window.base + a.top := addr_eq h.top_le (Nat.le_refl _)
  rw [locate_eq, hstart, hstop]
  by_cases hrange : a.window.base + headerSize ≤ address ∧ address < a.window.base + a.top
  · rw [if_pos hrange]
    have hin : ¬ (address < a.window.base + headerSize ∨ a.window.base + a.top ≤ address) := by
      omega
    by_cases hgranule : (address - a.window.base - headerSize) % granule = 0
    · have haligned : ¬ (address - a.window.base) % granule ≠ 0 := by
        simp only [granule, headerSize] at *
        omega
      rw [if_pos hgranule]
      refine Or.inr ⟨_, rfl, ?_⟩
      have hrejection : a.rejection address whenFree = _ :=
        (if_neg hin).trans (if_neg haligned)
      generalize hoff : address - a.window.base - headerSize = off at *
      have hlt : off + headerSize < a.top := by omega
      dsimp only at hrejection
      cases hfind : a.walk.segments.find? fun s => s.offset = off ∧ s.header.used = false with
      | some s =>
        rw [hfind] at hrejection
        have hsat := List.find?_some hfind
        simp only [decide_eq_true_eq] at hsat
        obtain ⟨hs, hfree⟩ := hsat
        obtain ⟨pre, b, post, rfl, rfl⟩ := h.mem_walk_iff.mp (List.mem_of_find?_eq_some hfind)
        refine Or.inr ⟨_, hs, ?_, hfree, hrejection⟩
        rw [← hs]
        exact h.read
      | none =>
        rw [hfind] at hrejection
        have hnone := List.find?_eq_none.mp hfind
        have hne : ∀ s ∈ a.walk.segments, s.offset ≠ off := by
          intro s hs heq
          cases hused : s.header.used with
          | true =>
            refine hdead ⟨s, hs, hused, ?_⟩
            unfold payload
            rw [heq, addr_eq h.top_le (Nat.le_of_lt hlt)]
            omega
          | false => exact hnone s hs (by simp [heq, hused])
        have hguard := h.guardAt_ne hclear hu hb hgranule (by omega) hne
        have hw : Word.add off headerSize = .ok (off + headerSize) :=
          Word.add_eq_ok.mpr ⟨rfl, by have := top_lt h.top_le; omega⟩
        refine Or.inl ?_
        rw [hrejection, ← addr_eq h.top_le (by omega : off ≤ a.top)]
        unfold Arena.read
        rw [hw]
        simp only [bind, Except.bind, if_neg (by omega : ¬ a.top < off + headerSize),
          if_neg hguard]
        rfl
    · have hmis : (address - a.window.base) % granule ≠ 0 := by
        simp only [granule, headerSize] at *
        omega
      rw [if_neg hgranule]
      refine Or.inl ?_
      unfold rejection
      rw [if_neg hin, if_pos hmis]
  · rw [if_neg hrange]
    refine Or.inl ?_
    unfold rejection
    rw [if_pos (by omega)]

end Arena

/-! ## Calls with such an address -/

namespace Machine

/-- Whatever a heap is told to do with a block at an address, it refuses: the error
says what is wrong with the address, and nothing but the journal changes. -/
def Refuses (m : Machine) (address : Nat) : Prop :=
  ∀ (callback : Callback) (site : CallSite),
    m.Reports site (m.arena.rejection address m.arena.freedTwice)
      (free callback address site m) ∧
    ∀ size, 0 < size → size ≤ Word.maxRequest →
      m.Reports site (m.arena.rejection address m.arena.notInUse)
        (reallocate callback address size site m)

section Refusals

variable {m : Machine} {bs : List Block} {address : Nat}

/-- The segment of an address that is not the payload of a live block is not
released. -/
theorem run_release_rejected (hl : m.arena.Lists bs) (hclear : ∀ b ∈ bs, b.Clear)
    (hu : m.arena.Unspelled) (hb : m.arena.BlankUnspelled) (hdead : ¬ m.arena.LiveAt address)
    (callback : Callback) (site : CallSite) :
    (do
      let off ← (← get).arena.locate address
      releaseSegment callback off site : HeapM Unit) m =
        .error (.detected (m.arena.rejection address m.arena.freedTwice)) m := by
  rw [run_bind_ok (run_get m)]
  rcases hl.rejected hclear hu hb hdead m.arena.freedTwice with
    hlocate | ⟨off, hlocate, hread | ⟨s, rfl, hread, hfree, herror⟩⟩
  · rw [hlocate, run_bind_error (run_lift_error _ _)]
  · unfold releaseSegment
    rw [hlocate, run_bind_ok (run_lift_ok _ _), run_bind_ok (run_get m)]
    dsimp only
    rw [hread, run_bind_error (run_lift_error _ _)]
  · have hunused : (!s.header.used) = true := by rw [hfree]; rfl
    unfold releaseSegment
    rw [hlocate, run_bind_ok (run_lift_ok _ _), run_bind_ok (run_get m)]
    dsimp only
    rw [hread, run_bind_ok (run_lift_ok _ _), if_pos hunused, herror]
    rfl

/-- Nor is it resized. -/
theorem run_resize_rejected (hl : m.arena.Lists bs) (hclear : ∀ b ∈ bs, b.Clear)
    (hu : m.arena.Unspelled) (hb : m.arena.BlankUnspelled) (hdead : ¬ m.arena.LiveAt address)
    (resize : Nat → Header → HeapM Nat) :
    (do
      let a := (← get).arena
      let off ← a.locate address
      let h ← a.read off
      if !h.used then throw (.detected (.notAllocated (a.addr off)))
      resize off h : HeapM Nat) m =
        .error (.detected (m.arena.rejection address m.arena.notInUse)) m := by
  rw [run_bind_ok (run_get m)]
  dsimp only
  rcases hl.rejected hclear hu hb hdead m.arena.notInUse with
    hlocate | ⟨off, hlocate, hread | ⟨s, rfl, hread, hfree, herror⟩⟩
  · rw [hlocate, run_bind_error (run_lift_error _ _)]
  · rw [hlocate, run_bind_ok (run_lift_ok _ _), hread, run_bind_error (run_lift_error _ _)]
  · have hunused : (!s.header.used) = true := by rw [hfree]; rfl
    rw [hlocate, run_bind_ok (run_lift_ok _ _), hread, run_bind_ok (run_lift_ok _ _),
      if_pos hunused, herror]
    rfl

/-- A heap between calls refuses every address that is not the payload of a live
block. -/
theorem Served.refuses_dead (hs : m.Served bs) (ho : m.Open) (hu : m.arena.Unspelled)
    (hb : m.arena.BlankUnspelled) (hpos : address ≠ 0) (hdead : ¬ m.arena.LiveAt address) :
    m.Refuses address := by
  have hl := hs.sound.lists
  have hclear := hs.sound.orderly.clear
  intro callback site
  constructor
  · have hreport : m.Reports site (m.arena.rejection address m.arena.freedTwice)
        (reporting site (tryFree callback address site) m) :=
      reports_of_detected hs.lock_eq ho site _ fun j =>
        ⟨j, run_release_rejected (m := m.entered site j) hl hclear hu hb hdead callback site⟩
    obtain ⟨j, hrun⟩ := hreport
    unfold free
    rw [if_neg hpos]
    exact ⟨j, run_bind_error hrun⟩
  · intro size hsize hmax
    unfold reallocate tryReallocate
    rw [if_neg (Nat.not_lt.mpr hmax), if_neg (Nat.ne_of_gt hsize), if_neg hpos, tryResize_eq hmax]
    exact reports_of_detected hs.lock_eq ho site _ fun j =>
      ⟨j, run_resize_rejected (m := m.entered site j) hl hclear hu hb hdead _⟩

end Refusals

end Machine

/-! ## What clients still hold -/

/-- The payload address of the block behind a pointer, as it is found when the pointer
is given back. -/
def Grant.block (g : Grant) (m : Machine) : Nat :=
  match g.layout with
  | none => g.address
  | some _ => m.arena.memory.word (m.slotOffset g.address) Layout.slotSize

theorem Matches.owner {base : Nat} {ledger : List Grant} {xs : List (Nat × Block)}
    (h : Matches base ledger xs) {x : Nat × Block} (hx : x ∈ xs) :
    ∃ g ∈ ledger, g.Owns base x := by
  obtain ⟨zs, hl, hxs, ho⟩ := h
  obtain ⟨z, hz, rfl⟩ := List.mem_map.mp (hxs.mem_iff.mpr hx)
  exact ⟨z.1, hl.subset (List.mem_map_of_mem hz), ho z hz⟩

/-- A pointer leads to the block it was handed out for. -/
theorem Grant.Owns.block_eq {m : Machine} {bs : List Block} {g : Grant} {off : Nat} {b : Block}
    (hs : m.Served bs) (hb : (off, b) ∈ live 0 bs) (ho : g.Owns m.arena.window.base (off, b)) :
    g.block m = m.arena.payload off := by
  unfold Grant.Owns at ho
  unfold Grant.block
  cases hl : g.layout with
  | none =>
    simp only [hl] at ho ⊢
    rw [(hs.payload_eq hb).1]
    exact ho
  | some l =>
    simp only [hl] at ho ⊢
    exact Machine.word_slot hs hb ho.2

namespace World

open Machine

variable {w w' : World} {bs : List Block} {address : Nat}

/-- The payloads of live blocks are those behind the pointers clients hold. -/
theorem Held.liveAt_iff (h : w.Held bs) :
    w.machine.arena.LiveAt address ↔ ∃ g ∈ w.ledger, g.block w.machine = address := by
  have hw := h.served.sound.lists.walk
  constructor
  · rintro ⟨s, hs, hu, rfl⟩
    rw [hw] at hs
    obtain ⟨b, -, -, hb, -⟩ := exists_live_of_used hs hu
    obtain ⟨g, hg, ho⟩ := h.owned.owner hb
    exact ⟨g, hg, ho.block_eq h.served hb⟩
  · rintro ⟨g, hg, rfl⟩
    obtain ⟨⟨off, b⟩, rest, ho, hperm, -⟩ := h.owned.pick hg
    have hb : (off, b) ∈ live 0 bs := hperm.subset List.mem_cons_self
    obtain ⟨t, ht, rfl, prev, next, hheader⟩ := exists_segment_of_live hb
    refine ⟨t, by rw [hw]; exact ht, ?_, (ho.block_eq h.served hb).symm⟩
    rw [hheader]
    exact (mem_live_iff.mp hb).1

/-- After a run from a reachable world the world is reachable. -/
theorem Reachable.run (h : w.Reachable) (hrun : Relation.ReflTransGen Step w w') :
    w'.Reachable := by
  induction hrun with
  | refl => exact h
  | tail _ hs ih => exact ih.step hs

/-- A block that was given back is not live any more. -/
theorem Held.not_liveAt_of_free (h : w.Held bs) (hg : ⟨address, none⟩ ∈ w.ledger)
    {site : CallSite} {m : Machine} {r : Bool}
    (hrun : free .none address site w.machine = .ok r m) : ¬ m.arena.LiveAt address := by
  obtain ⟨off, b, -, hb, rfl, -⟩ := exists_owned h.served h.owned hg
  have hends := ends_free h.served hb site
  rw [hrun] at hends
  obtain ⟨_, _, bs', ⟨rfl, rfl⟩, hex⟩ := hends
  have hs' := hex.served h.served
  rintro ⟨s, hs, hu, hpayload⟩
  rw [hs'.sound.lists.walk] at hs
  obtain ⟨c, -, -, hc, -⟩ := exists_live_of_used hs hu
  -- two blocks at one offset, of which one went and one stayed
  have hsame : s.offset = off := by
    rw [(hs'.payload_eq hc).1, (h.served.payload_eq hb).1, hex.around.window_eq] at hpayload
    omega
  exact fst_ne_of_perm hex.perm hc hsame

/-- In every world well-behaved clients lead to, as long as nothing spells the guard, not
even a word without a value, the heap refuses every address that is not the payload of a
live block.  A pointer that was given back is refused whatever happens in between, unless a
client holds the block of a pointer at exactly that address again. -/
theorem Reachable.refuses (h : w.Reachable) :
    (w.machine.Open → w.machine.arena.Unspelled → w.machine.arena.BlankUnspelled →
      ∀ address, address ≠ 0 → ¬ w.machine.arena.LiveAt address → w.machine.Refuses address) ∧
    ∀ address site m, ⟨address, none⟩ ∈ w.ledger →
      free .none address site w.machine = .ok true m →
      (∀ g ∈ w.ledger.erase ⟨address, none⟩, g.block m ≠ address) ∧
      ∀ w', Relation.ReflTransGen Step ⟨m, w.ledger.erase ⟨address, none⟩⟩ w' →
        w'.machine.Open → w'.machine.arena.Unspelled → w'.machine.arena.BlankUnspelled →
        (∀ g ∈ w'.ledger, g.block w'.machine ≠ address) → w'.machine.Refuses address := by
  obtain ⟨bs, hheld⟩ := h.held
  refine ⟨fun ho hu hb address hpos hdead =>
    hheld.served.refuses_dead ho hu hb hpos hdead, ?_⟩
  intro address site m hg hrun
  have hstep : w.Step ⟨m, w.ledger.erase ⟨address, none⟩⟩ :=
    .call (c := .free address) (Or.inr hg) (run_bind_ok hrun)
  constructor
  · intro g hgrant hblock
    obtain ⟨bs', hheld'⟩ := hheld.step hstep
    exact hheld.not_liveAt_of_free hg hrun (hheld'.liveAt_iff.mpr ⟨g, hgrant, hblock⟩)
  · intro w' hsteps ho hu hb hnone
    obtain ⟨bs', hheld'⟩ := ((h.step hstep).run hsteps).held
    obtain ⟨x, -, howns, -⟩ := hheld.owned.pick hg
    refine hheld'.served.refuses_dead ho hu hb howns.address_ne_zero fun hlive => ?_
    obtain ⟨g, hgrant, hblock⟩ := hheld'.liveAt_iff.mp hlive
    exact hnone g hgrant hblock

/-- In the small heap an address inside a payload is refused, and so is the pointer of the
first block once it was given back. -/
theorem refuses_smallWorld :
    smallWorld.machine.Refuses 0x10000050 ∧
      (after (free .none 0x10000040 ⟨3⟩) smallWorld.machine).Refuses 0x10000040 := by
  have hfreed : free .none 0x10000040 ⟨3⟩ smallWorld.machine =
      .ok true (after (free .none 0x10000040 ⟨3⟩) smallWorld.machine) :=
    run_of_returns (by decide +kernel)
  obtain ⟨hrefused, htwice⟩ := Reachable.refuses reachable_smallWorld
  obtain ⟨hgone, hlater⟩ := htwice _ ⟨3⟩ _
    (List.mem_cons_of_mem _ (List.mem_singleton_self _)) hfreed
  exact ⟨hrefused (by decide +kernel) (by decide +kernel) (by decide +kernel) _ (by decide)
      (by decide +kernel),
    hlater _ .refl (by decide +kernel) (by decide +kernel) (by decide +kernel) hgone⟩

/-- The small heap with one block, where the word for the context of the block, which was
not recorded, happens to hold the bytes of the guard. -/
def smallSpelled : World :=
  ⟨(((smallBlock.machine.poke 48 0xef).poke 49 0xbe).poke 50 0xad).poke 51 0xde,
    smallBlock.ledger⟩

theorem reachable_smallSpelled : smallSpelled.Reachable := by
  have hstep {m : Machine} (h : Reachable ⟨m, smallBlock.ledger⟩)
      (hs : ∃ s ∈ m.arena.walk.segments, s.offset = 0 ∧ s.header.allocatedBy = none)
      (d : Nat) (hd : 48 ≤ d ∧ d < 56) (b : UInt8) :
      Reachable ⟨m.poke d b, smallBlock.ledger⟩ := by
    obtain ⟨s, hs, hoff, hnone⟩ := hs
    have hblank := Step.blank (w := ⟨m, smallBlock.ledger⟩) hs (.inr ⟨hnone, hd⟩) b
    rw [hoff, Nat.zero_add] at hblank
    exact h.step hblank
  refine hstep (hstep (hstep (hstep reachable_smallBlock ?_ 48 (by decide) 0xef) ?_ 49 (by decide)
    0xbe) ?_ 50 (by decide) 0xad) ?_ 51 (by decide) 0xde
  all_goals decide +kernel

/-- There nothing else spells the guard, and still an address inside the payload is taken for
that of a free segment. -/
theorem not_refuses_smallSpelled :
    smallSpelled.Reachable ∧ smallSpelled.machine.Open ∧ smallSpelled.machine.arena.Unspelled ∧
      ¬ smallSpelled.machine.arena.LiveAt 0x10000070 ∧
      smallSpelled.machine.arena.rejection 0x10000070 smallSpelled.machine.arena.freedTwice =
        .corrupted 0x10000030 0 0xdeadbeef ∧
      fails (free .none 0x10000070 ⟨2⟩) smallSpelled.machine
        (.fatal ⟨.doubleFree 0x10000030 0 none, ⟨⟨2⟩, smallSpelled.machine.context.id,
          smallSpelled.machine.context.cpu⟩⟩) = true ∧
      ¬ smallSpelled.machine.Refuses 0x10000070 := by
  have hrejection : smallSpelled.machine.arena.rejection 0x10000070
      smallSpelled.machine.arena.freedTwice = .corrupted 0x10000030 0 0xdeadbeef := by
    decide +kernel
  have hfails : fails (free .none 0x10000070 ⟨2⟩) smallSpelled.machine
      (.fatal ⟨.doubleFree 0x10000030 0 none, ⟨⟨2⟩, smallSpelled.machine.context.id,
        smallSpelled.machine.context.cpu⟩⟩) = true := by
    decide +kernel
  refine ⟨reachable_smallSpelled, by decide +kernel, by decide +kernel, by decide +kernel,
    hrejection, hfails, fun hrefuses => ?_⟩
  obtain ⟨j, hrun⟩ := (hrefuses .none ⟨2⟩).1
  rw [hrejection, run_of_fails hfails] at hrun
  simp at hrun

end World

end GuardedHeap
