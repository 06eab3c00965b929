/-
  Proofs/FirstFit.lean --- where a block goes.

  WHAT THIS FILE IS FOR.  The heap keeps no list of free segments.  It walks over all
  of them, takes the first that is large enough, splits it if enough is left over, and
  grows at the end if there is none.  Seen from outside that is first fit over the
  segments as they were before the call: which segment, where, and how much room.

  WHAT IS PROVED.  First fit names one place for every size.  In every world
  well-behaved clients lead to, a block that is given out stands there, is clear, and
  is the only one that is new; what is in use grows by its size.
-/
import GuardedHeap.Proofs.Audit
import GuardedHeap.Proofs.Canonical

set_option autoImplicit false

namespace GuardedHeap

/-! ## First fit -/

/-- Where first fit puts a block of `size` bytes: the segment that is there already, if
there is one, the offset, and the payload bytes of the room. -/
inductive Arena.FirstFit (a : Arena) (size : Nat) : Option Segment → Nat → Nat → Prop
  /-- the lowest free segment that is large enough -/
  | fit {s : Segment} (hs : s ∈ a.walk.segments) (hfits : Fits size s)
      (lowest : ∀ t ∈ a.walk.segments, Fits size t → s.offset ≤ t.offset) :
      FirstFit a size (some s) s.offset s.header.size
  /-- nothing is large enough, and the last segment is free: it grows -/
  | grown {s : Segment} (hnone : ∀ t ∈ a.walk.segments, ¬ Fits size t)
      (hlast : a.walk.segments.getLast? = some s) (hu : s.header.used = false) :
      FirstFit a size (some s) s.offset size
  /-- nothing is large enough, and the last segment is used: a new one starts at the top -/
  | appended {s : Segment} (hnone : ∀ t ∈ a.walk.segments, ¬ Fits size t)
      (hlast : a.walk.segments.getLast? = some s) (hu : s.header.used = true) :
      FirstFit a size none a.top size

/-- The payload bytes of a block of `size` bytes that is given room for more: what is left
over stays with it, unless that is more than a header. -/
def takenSize (size room : Nat) : Nat := if headerSize < room - size then size else room

theorem Block.size_taken (b : Block) (size : Nat) :
    (b.taken size).size = takenSize size b.size := by
  unfold taken takenSize
  split <;> rfl

theorem Arena.eq_of_offset_eq {a : Arena} {s t : Segment} (hs : s ∈ a.walk.segments)
    (ht : t ∈ a.walk.segments) (h : s.offset = t.offset) : s = t := by
  have hpair : a.walk.segments.Pairwise fun s t => s.offset = t.offset → s = t := by
    refine (a.walkFrom_offsets 0).2.imp fun {s t} hle heq => ?_
    simp only [headerSize] at hle
    omega
  exact List.Pairwise.forall_of_forall_of_flip (fun _ _ _ => rfl) hpair
    (hpair.imp fun h heq => (h heq.symm).symm) hs ht h

/-- First fit has one place for every size. -/
theorem Arena.FirstFit.unique {a : Arena} {size off off' room room' : Nat} {f f' : Option Segment}
    (h : a.FirstFit size f off room) (h' : a.FirstFit size f' off' room') :
    f = f' ∧ off = off' ∧ room = room' := by
  cases h with
  | fit hs hfits lowest =>
    cases h' with
    | fit hs' hfits' lowest' =>
      obtain rfl := eq_of_offset_eq hs hs'
        (Nat.le_antisymm (lowest _ hs' hfits') (lowest' _ hs hfits))
      exact ⟨rfl, rfl, rfl⟩
    | grown hnone hlast hu => exact absurd hfits (hnone _ hs)
    | appended hnone hlast hu => exact absurd hfits (hnone _ hs)
  | grown hnone hlast hu =>
    cases h' with
    | fit hs' hfits' lowest' => exact absurd hfits' (hnone _ hs')
    | grown hnone' hlast' hu' =>
      obtain rfl := Option.some.inj (hlast.symm.trans hlast')
      exact ⟨rfl, rfl, rfl⟩
    | appended hnone' hlast' hu' =>
      obtain rfl := Option.some.inj (hlast.symm.trans hlast')
      rw [hu] at hu'
      cases hu'
  | appended hnone hlast hu =>
    cases h' with
    | fit hs' hfits' lowest' => exact absurd hfits' (hnone _ hs')
    | grown hnone' hlast' hu' =>
      obtain rfl := Option.some.inj (hlast.symm.trans hlast')
      rw [hu] at hu'
      cases hu'
    | appended hnone' hlast' hu' => exact ⟨rfl, rfl, rfl⟩

/-- Only the segments and the top matter. -/
theorem Arena.FirstFit.congr {a a' : Arena} {size off room : Nat} {f : Option Segment}
    (h : a.FirstFit size f off room) (hw : a'.walk = a.walk) (ht : a'.top = a.top) :
    a'.FirstFit size f off room := by
  cases h with
  | fit hs hfits lowest =>
    rw [← hw] at hs lowest
    exact .fit hs hfits lowest
  | grown hnone hlast hu =>
    rw [← hw] at hnone hlast
    exact .grown hnone hlast hu
  | appended hnone hlast hu =>
    rw [← hw] at hnone hlast
    rw [← ht]
    exact .appended hnone hlast hu

theorem Arena.FirstFit.mem {a : Arena} {size off room : Nat} {f : Segment}
    (h : a.FirstFit size (some f) off room) : f ∈ a.walk.segments ∧ f.offset = off := by
  cases h with
  | fit hs hfits lowest => exact ⟨hs, rfl⟩
  | grown hnone hlast hu => exact ⟨List.mem_of_getLast? hlast, rfl⟩

section Rows

variable {a : Arena} {bs pre post : List Block} {c : Block} {size : Nat}

theorem Arena.Lists.forall_not_fits_iff (h : a.Lists bs) :
    (∀ t ∈ a.walk.segments, ¬ Fits size t) ↔ ∀ x ∈ bs, ¬ x.Fits size := by
  constructor
  · intro hnone x hx
    obtain ⟨pre, post, rfl⟩ := List.append_of_mem hx
    exact hnone _ (h.mem_walk_iff.mpr ⟨pre, x, post, rfl, rfl⟩)
  · intro hnone t ht
    obtain ⟨pre, b, post, rfl, rfl⟩ := h.mem_walk_iff.mp ht
    exact hnone b (by simp)

theorem Arena.Lists.getLast?_walk (h : a.Lists (pre ++ [c])) :
    a.walk.segments.getLast? = some ⟨span pre, c.headerIn pre []⟩ := by
  rw [h.walk, getLast?_segments_concat, Nat.zero_add]
  rfl

/-- A block that starts before another stands in front of it. -/
theorem exists_of_span_lt {pre post pre' post' : List Block} {b c : Block}
    (h : pre ++ c :: post = pre' ++ b :: post') (hlt : span pre' < span pre) :
    ∃ mid, pre = pre' ++ b :: mid := by
  rcases List.append_eq_append_iff.mp h with ⟨mid, rfl, -⟩ | ⟨mid, rfl, hrest⟩
  · rw [span_append] at hlt
    omega
  · cases mid with
    | nil =>
      rw [List.append_nil] at hlt
      exact absurd hlt (Nat.lt_irrefl _)
    | cons x xs =>
      rw [List.cons_append, List.cons.injEq] at hrest
      exact ⟨xs, by rw [hrest.1]⟩

/-- A block that is to be given out is what becomes of a free segment. -/
structure Block.Becomes (c : Block) (a : Arena) (s : Segment) : Prop where
  le_size : s.header.size ≤ c.size
  freedAt_eq : c.freedAt = s.header.freedAt
  bytes_eq : ∀ i, i < s.header.size → c.bytes i = a.memory.get (s.offset + headerSize + i)

/-- The room that is found in or behind a row is the one first fit names.  If that is a
segment, its block is what becomes of it. -/
theorem Found.firstFit (hf : Found size bs pre c post) (hl : a.Lists bs) :
    ∃ f, a.FirstFit size f (span pre) c.size ∧ ∀ s ∈ f, s.offset = span pre ∧ c.Becomes a s := by
  cases hf with
  | fit hbs hc hpre =>
    subst hbs
    refine ⟨_, .fit (s := ⟨span pre, c.headerIn pre post⟩)
      (hl.mem_walk_iff.mpr ⟨pre, c, post, rfl, rfl⟩) hc ?_, ?_⟩
    · intro t ht hfits
      obtain ⟨pre', b, post', hbs, rfl⟩ := hl.mem_walk_iff.mp ht
      by_contra hlt
      obtain ⟨mid, hmid⟩ := exists_of_span_lt hbs (Nat.lt_of_not_le hlt)
      exact hpre b (by rw [hmid]; simp) hfits
    · rintro s ⟨⟩
      exact ⟨rfl, Nat.le_refl _, rfl, fun i hi => (hl.stands.payload i hi).symm⟩
  | made hnone hg =>
    have hnone' := hl.forall_not_fits_iff.mpr hnone
    obtain ⟨front, l, rfl⟩ : ∃ front l, bs = front ++ [l] :=
      ⟨_, _, (List.dropLast_append_getLast hl.ne_nil).symm⟩
    have hlast := hl.getLast?_walk
    rcases grown_concat hg with ⟨hu, rfl, rfl⟩ | ⟨hu, rfl, rfl⟩
    · have hlarge : l.size < size := Nat.lt_of_not_le fun hle => hnone l (by simp) ⟨hu, hle⟩
      refine ⟨_, .grown hnone' hlast hu, ?_⟩
      rintro s ⟨⟩
      exact ⟨rfl, Nat.le_of_lt hlarge, rfl,
        fun i hi => (if_pos hi).trans (hl.stands.payload i hi).symm⟩
    · rw [← hl.top_eq]
      exact ⟨_, .appended hnone' hlast hu, nofun⟩

end Rows

/-! ## What is in use -/

/-- The payload bytes in use, as every listing that returns finds them. -/
structure Machine.Counts (m : Machine) (used : Nat) : Prop where
  plain : ∀ site, ∃ n, usedBytes false site m = .ok used n
  detailed : ∀ site r n, usedBytes true site m = .ok r n → r = used

theorem Arena.payloadIn_walk (a : Arena) :
    payloadIn true a.walk.segments = (a.liveBlocks.map Prod.snd).sum := by
  unfold payloadIn payloadBy liveBlocks
  rw [List.map_map]
  simp only [beq_true]
  rfl

/-- A heap between calls shows the sizes of its live blocks to every context that may use
it. -/
theorem Machine.Served.counts {m : Machine} {bs : List Block} (hs : m.Served bs) (ho : m.Open) :
    m.Counts (m.arena.liveBlocks.map Prod.snd).sum := by
  have hl := hs.sound.lists
  have htop : m.arena.top < 2 ^ 64 :=
    Nat.lt_of_lt_of_le (Arena.top_lt hl.top_le) (Nat.sub_le _ _)
  obtain ⟨offs, hc, -⟩ := Arena.chained_of_totals htop (hl.totals hs.sound.orderly.separated)
  have hused : (m.arena.sums offs).usedBytes = (m.arena.liveBlocks.map Prod.snd).sum := by
    rw [← Arena.payloadIn_walk, hc.walk htop]
    rfl
  have hrun := fun details site => run_usedBytes hs.lock_eq ho hc htop details site
  rw [hused] at hrun
  refine ⟨fun site => ?_, fun site r n hr => ?_⟩
  · obtain ⟨j, hj⟩ := hrun false site
    exact ⟨_, hj.trans (if_neg fun h => nomatch h.1)⟩
  · obtain ⟨j, hj⟩ := hrun true site
    rw [hr] at hj
    split at hj
    · cases hj
    · cases hj
      rfl

/-! ## Every reachable world -/

namespace World

open Machine

/-- In every world well-behaved clients lead to, a block that is given out stands where
first fit says.  It is the only one that is new, its payload is clear and on the granule,
and what is in use grows by its size. -/
theorem Reachable.first_fit {w : World} (h : w.Reachable) {size p : Nat} {site : CallSite}
    {m : Machine} (hrun : allocate .none size site w.machine = .ok p m) :
    ∃ f off room used, w.machine.arena.FirstFit (requestSize size) f off room ∧
      m.arena.liveBlocks.Perm
        ((off, takenSize (requestSize size) room) :: w.machine.arena.liveBlocks) ∧
      p = w.machine.arena.window.base + off + headerSize ∧ p % granule = 0 ∧
      (∀ i, i < takenSize (requestSize size) room →
        m.arena.memory.get (off + headerSize + i) = 0) ∧
      w.machine.Counts used ∧ m.Counts (used + takenSize (requestSize size) room) := by
  obtain ⟨bs, hheld⟩ := h.held
  have hs := hheld.served
  have hends := ends_allocate hs size site
  rw [hrun] at hends
  obtain ⟨gone, new, bs', hnew, hex⟩ := hends
  cases hnew with
  | @intro pre post c ho hf =>
    have hs' := hex.served hs
    have hmem := (hex.perm_rest (List.Perm.refl _)).subset List.mem_cons_self
    have hsize : (w.machine.newBlock (requestSize size) site c).size =
        takenSize (requestSize size) c.size := Block.size_taken c _
    obtain ⟨f, hfirst, -⟩ := hf.firstFit hs.sound.lists
    have hperm : m.arena.liveBlocks.Perm
        ((span pre, takenSize (requestSize size) c.size) :: w.machine.arena.liveBlocks) := by
      rw [hs.sound.lists.liveBlocks_eq, hs'.sound.lists.liveBlocks_eq, ← hsize]
      exact hex.perm.map _
    have hcounts := hs'.counts (m := m) (by unfold Open; rw [hex.around.context_eq]; exact ho)
    rw [(hperm.map Prod.snd).sum_nat, List.map_cons, List.sum_cons, Nat.add_comm] at hcounts
    have hpayload := hs'.payload_eq hmem
    have haligned := hs'.payload_aligned hmem
    rw [← payload_of_around hex.around] at hpayload haligned
    rw [hex.around.window_eq] at hpayload
    refine ⟨f, span pre, c.size, _, hfirst, hperm, hpayload.1, haligned, ?_, hs.counts ho, hcounts⟩
    intro i hi
    obtain ⟨⟨prev, next, hstands⟩, -⟩ := hs'.stands hmem
    rw [← hsize] at hi
    rw [hstands.payload i hi]
    exact clear_newBlock w.machine site hf hs.sound.orderly.toTidy hi

/-- The free end of the small heap is the first that has room for 200 bytes. -/
theorem first_fit_smallWorld :
    ∃ m f room, allocate .none 200 ⟨5⟩ smallWorld.machine = .ok 0x10000280 m ∧
      smallWorld.machine.arena.FirstFit 208 f 576 room ∧
      m.arena.liveBlocks.Perm
        ((576, takenSize 208 room) :: smallWorld.machine.arena.liveBlocks) := by
  have hrun : allocate .none 200 ⟨5⟩ smallWorld.machine = .ok 0x10000280 _ :=
    run_of_returns (by decide +kernel)
  obtain ⟨f, off, room, -, hfirst, hperm, hp, -⟩ := Reachable.first_fit reachable_smallWorld hrun
  have hbase : smallWorld.machine.arena.window.base = 0x10000000 := by decide +kernel
  rw [hbase, headerSize] at hp
  obtain rfl : off = 576 := by omega
  exact ⟨_, f, room, hrun, hfirst, hperm⟩

end World

end GuardedHeap
