/-
  Proofs/Damage/Unmarked.lean --- a release that meets an error when it is under way.

  WHAT THIS FILE IS FOR.  The look at the links around a block does not find everything: a
  merge asks more of them, and the audit more still.  Here a release is followed over
  memory that says anything at all.  `Spent` is what stays true of it from the first
  change on: the block is not in use any more, and the segment it was merged into says
  nothing to the contrary.

  WHAT IS PROVED.  An error in giving a block back comes before the first change, where
  the look finds it, or leaves the block marked as free.
-/
import GuardedHeap.Proofs.Damage.Links

set_option autoImplicit false

namespace GuardedHeap

namespace Arena

/-! ## A block that is no longer in use -/

/-- A stored word is zero exactly where all its bytes are. -/
theorem word_eq_zero_iff {m : Memory} {off width : Nat} :
    m.word off width = 0 ↔ ∀ i, off ≤ i → i < off + width → m.get i = 0 := by
  induction width generalizing off with
  | zero => exact ⟨fun _ i h1 h2 => absurd h2 (by omega), fun _ => rfl⟩
  | succ width ih =>
    have hscaled : 256 * m.word (off + 1) width = 0 ↔ m.word (off + 1) width = 0 := by omega
    rw [Memory.word, Nat.add_eq_zero_iff, hscaled, ih]
    constructor
    · rintro ⟨hfirst, hrest⟩ i h1 h2
      by_cases hi : i = off
      · rw [hi]
        exact UInt8.toNat_inj.mp hfirst
      · exact hrest i (by omega) (by omega)
    · intro h
      refine ⟨?_, fun i h1 h2 => h i (by omega) (by omega)⟩
      rw [h off (by omega) (by omega)]
      rfl

/-- The header at `k` says nothing to the contrary of the block at `off` being free: it is
that of the block and says so itself, or the words of it that lie over that of the block
are zero. -/
structure Mute (off k : Nat) (h : Header) : Prop where
  used : k = off → h.used = false
  prev : k + 16 = off → h.prev = some 0
  allocatedAt : k + 32 = off → h.allocatedAt = none
  allocatedBy : k + 48 = off → ∀ c ∈ h.allocatedBy, c.value = 0

/-- The block at `off` is not in use any more, and belongs to the segment at `k`: it is
that segment, or the beginning of its header was cleared when it was merged. -/
structure Spent (start : Arena) (off k : Nat) (a : Arena) : Prop where
  window_eq : a.window = start.window
  top_eq : a.top = start.top
  spent : k = off ∧ a.memory.get (off + 4) = 0 ∨
    (k < off ∧ k % granule = 0) ∧ ∀ i, off ≤ i → i < off + 8 → a.memory.get i = 0

section Spent

variable {start a : Arena} {off k : Nat}

theorem Spent.le (h : Spent start off k a) : k ≤ off := by
  rcases h.spent with ⟨rfl, -⟩ | ⟨⟨hlt, -⟩, -⟩
  · exact Nat.le_refl _
  · exact Nat.le_of_lt hlt

/-- It stays so when memory is cleared anywhere, or changed elsewhere. -/
theorem Spent.edit (h : Spent start off k a) {m : Memory}
    (hm : ∀ i, off ≤ i → i < off + 8 → m.get i = a.memory.get i ∨ m.get i = 0) :
    Spent start off k { a with memory := m } := by
  refine ⟨h.window_eq, h.top_eq, ?_⟩
  rcases h.spent with ⟨hk, hz⟩ | ⟨hk, hz⟩
  · refine .inl ⟨hk, ?_⟩
    rcases hm (off + 4) (by omega) (by omega) with hsame | hzero
    · exact hsame.trans hz
    · exact hzero
  · refine .inr ⟨hk, fun i h1 h2 => ?_⟩
    rcases hm i h1 h2 with hsame | hzero
    · exact hsame.trans (hz i h1 h2)
    · exact hzero

theorem Spent.zero (h : Spent start off k a) (start' len : Nat) :
    Spent start off k { a with memory := a.memory.zero start' len } := by
  refine h.edit fun i _ _ => ?_
  rw [Memory.get_zero]
  split
  · exact .inr rfl
  · exact .inl rfl

theorem Spent.store_above (h : Spent start off k a) {p : Nat} (hp : off + headerSize ≤ p)
    (g : Header) : Spent start off k { a with memory := Header.store a.memory p g } := by
  simp only [headerSize] at hp
  exact h.edit fun i h1 h2 => .inl (Header.get_store_of_outside g (.inl (by omega)))

/-- What the header of the segment says was read from memory where the block is free. -/
theorem Spent.mute (h : Spent start off k a) : Mute off k (Header.load a.memory k) := by
  rcases h.spent with ⟨rfl, hz⟩ | ⟨⟨hlt, -⟩, hz⟩
  · refine ⟨fun _ => ?_, fun hk => by omega, fun hk => by omega, fun hk => by omega⟩
    simp only [Header.load, hz]
    rfl
  · have hword : a.memory.word off 8 = 0 := word_eq_zero_iff.mpr hz
    refine ⟨fun hk => by omega, fun hk => ?_, fun hk => ?_, fun hk c hc => ?_⟩
    · simp only [Header.load, hk, hword]
      rfl
    · simp only [Header.load, hk, hword]
      rfl
    · simp only [Header.load, hk, hword, Option.mem_def] at hc
      split at hc
      · cases hc
      · cases hc
        rfl

theorem Spent.mute_of_read (h : Spent start off k a) {g : Header} (hg : a.read k = .ok g) :
    Mute off k g := by
  rw [(read_eq_ok hg).2.2]
  exact h.mute

theorem word_store_prev_zero (m : Memory) (k : Nat) {h : Header} (hp : h.prev = some 0) :
    (Header.store m k h).word (k + 16) 8 = 0 := by
  unfold Header.store
  simp only
  rw [Memory.word_writeWord_of_disjoint _ (by omega),
    Header.word_storeOwner_of_disjoint _ (by omega), Memory.word_writeWord_of_disjoint _ (by omega),
    Memory.word_writeWord_of_disjoint _ (by omega), Memory.word_writeWord, hp]
  rfl

theorem word_store_owner_zero {m : Memory} {k : Nat} {h : Header}
    (hm : m.word (k + 48) 8 = 0) (ho : ∀ c ∈ h.allocatedBy, c.value = 0) :
    (Header.store m k h).word (k + 48) 8 = 0 := by
  unfold Header.store
  simp only
  rw [Memory.word_writeWord_of_disjoint _ (by omega)]
  cases hc : h.allocatedBy with
  | none =>
    -- the word stays as it was
    rw [Header.storeOwner, ← hm]
    iterate 7 rw [Memory.word_writeWord_of_disjoint _ (by omega)]
  | some c =>
    rw [Header.storeOwner, Memory.word_writeWord, ho c hc]
    rfl

/-- Writing such a header back keeps it so. -/
theorem Spent.store (h : Spent start off k a) (hoff : off % granule = 0) {g : Header}
    (hg : Mute off k g) : Spent start off k { a with memory := Header.store a.memory k g } := by
  refine ⟨h.window_eq, h.top_eq, ?_⟩
  rcases h.spent with ⟨hk, -⟩ | ⟨⟨hlt, hk⟩, hz⟩
  · refine .inl ⟨hk, ?_⟩
    show (Header.store a.memory k g).get (off + 4) = 0
    rw [← hk, Header.get_store_used, hg.used hk]
    rfl
  · refine .inr ⟨⟨hlt, hk⟩, word_eq_zero_iff.mp ?_⟩
    show (Header.store a.memory k g).word off 8 = 0
    -- the header of the segment ends in front of the block or lies over the beginning of it
    have hplace : k + 16 = off ∨ k + 32 = off ∨ k + 48 = off ∨ k + headerSize ≤ off := by
      simp only [granule, headerSize] at *
      omega
    rcases hplace with hp | hp | hp | hp
    · rw [← hp]
      exact word_store_prev_zero _ _ (hg.prev hp)
    · rw [← hp, Header.word_store_allocatedAt, hg.allocatedAt hp]
      rfl
    · rw [← hp]
      exact word_store_owner_zero (hp ▸ word_eq_zero_iff.mpr hz) (hg.allocatedBy hp)
    · rw [← word_eq_zero_iff.mpr hz]
      exact Memory.word_congr fun i h1 h2 => Header.get_store_of_outside g (.inr (by omega))

end Spent

/-! ## The work of a release on any memory -/

/-- An operation on an arena returned and left one that satisfies `Q`, or failed and left
one that satisfies `E`. -/
def Leaves {α : Type} (Q : α → Arena → Prop) (E : Arena → Prop) :
    EStateM.Result Fault Arena α → Prop
  | .ok r a => Q r a
  | .error _ a => E a

namespace Leaves

variable {α β : Type} {Q : α → Arena → Prop} {P : β → Arena → Prop} {E : Arena → Prop} {a : Arena}

/-- What follows continues from there. -/
theorem bind {x : ArenaM α} {f : α → ArenaM β} (h : Leaves Q E (x a))
    (hf : ∀ r b, Q r b → Leaves P E (f r b)) : Leaves P E ((x >>= f) a) := by
  cases hx : x a with
  | ok r b =>
    rw [hx] at h
    rw [run_bind_ok hx]
    exact hf r b h
  | error e b =>
    rw [hx] at h
    rw [run_bind_error hx]
    exact h

theorem get {f : Arena → ArenaM α} (h : Leaves Q E (f a a)) : Leaves Q E ((get >>= f) a) := h

theorem lift {x : Except Fault β} {f : β → ArenaM α} (ha : E a)
    (hf : ∀ r, x = .ok r → Leaves Q E (f r a)) : Leaves Q E ((liftM x >>= f) a) := by
  cases x with
  | ok r => exact hf r rfl
  | error e => exact ha

end Leaves

section Work

variable {start a : Arena} {off k : Nat}

/-- The flag of the block at an offset does not say that it is in use. -/
def Unmarked (off : Nat) (a : Arena) : Prop := a.memory.get (off + 4) = 0

theorem Spent.unmarked (h : Spent start off k a) : Unmarked off a := by
  rcases h.spent with ⟨-, hz⟩ | ⟨-, hz⟩
  · exact hz
  · exact hz _ (by omega) (by omega)

theorem le_of_successorSegment {h : Header} {s : Segment}
    (hs : a.successorSegment off h = .ok (some s)) : off + headerSize ≤ s.offset := by
  obtain ⟨-, hstop, -⟩ := successor_eq_some (successorSegment_eq_some hs).1
  omega

theorem leaves_linkBack (h : Spent start off k a) {next : Option Segment}
    (hnext : ∀ s, next = some s → off + headerSize ≤ s.offset) (low : Nat) :
    Leaves (fun _ => Spent start off k) (Unmarked off) (linkBack next low a) := by
  cases next with
  | none => exact ⟨h.window_eq, h.top_eq, h.spent⟩
  | some s => exact h.store_above (hnext s rfl) _

/-- A merge that fails leaves the block free; one that does its work ends with a header
at the lower place and a cleared one at the higher. -/
theorem leaves_join {low high : Segment} {Q : Nat → Arena → Prop} (h : Spent start off k a)
    (hhigh : off ≤ high.offset)
    (hdone : ∀ b size next, Spent start off k b →
      Q low.offset { b with memory := (Header.store b.memory low.offset
        { low.header with size := size, next := next }).zero high.offset headerSize }) :
    Leaves Q (Unmarked off) (join low high a) := by
  unfold join
  refine .get ?_
  by_cases hneighbor : low.header.next ≠ some high.offset
  · rw [if_pos hneighbor]
    exact h.unmarked
  · rw [if_neg hneighbor]
    refine .lift h.unmarked fun next hnext => ?_
    by_cases hmissing : next.isNone ∧ high.offset ≠ a.last
    · rw [if_pos hmissing]
      exact h.unmarked
    · rw [if_neg hmissing]
      have hbehind : ∀ s, next = some s → off + headerSize ≤ s.offset := by
        rintro s rfl
        have := le_of_successorSegment hnext
        omega
      refine (leaves_linkBack h hbehind low.offset).bind fun _ b hb => ?_
      exact .lift hb.unmarked fun gained _ => .lift hb.unmarked fun size _ => hdone b size _ hb

/-- Merging the block with what is free in front of it: from then on it belongs to that. -/
theorem leaves_absorb_back (h : Spent start off off a) {link : Option Nat}
    (hlink : ∀ q, link = some q → q < off ∧ q % granule = 0) :
    Leaves (Spent start off) (Unmarked off) (absorb off link a) := by
  cases link with
  | none => exact h
  | some q =>
    obtain ⟨hq, hgran⟩ := hlink q rfl
    unfold absorb
    refine .get <| .lift h.unmarked fun kept _ => .lift h.unmarked fun taken _ => ?_
    cases taken.used with
    | true =>
      rw [if_pos rfl]
      exact h
    | false =>
      rw [if_neg Bool.false_ne_true, if_pos hq]
      refine leaves_join h (Nat.le_refl off) fun b size next hb => ?_
      refine ⟨hb.window_eq, hb.top_eq, .inr ⟨⟨hq, hgran⟩, fun i h1 h2 => ?_⟩⟩
      rw [Memory.get_zero, if_pos]
      simp only [headerSize]
      omega

/-- Merging with what is free behind the block. -/
theorem leaves_absorb_ahead (h : Spent start off k a) (hoff : off % granule = 0)
    {link : Option Nat} (hlink : ∀ n, link = some n → off + headerSize ≤ n) :
    Leaves (Spent start off) (Unmarked off) (absorb k link a) := by
  cases link with
  | none => exact h
  | some n =>
    have habove : off ≤ n := Nat.le_trans (Nat.le_add_right off headerSize) (hlink n rfl)
    have hlt : ¬ n < k := by
      have := h.le
      omega
    unfold absorb
    refine .get <| .lift h.unmarked fun kept hkept => .lift h.unmarked fun taken _ => ?_
    cases taken.used with
    | true =>
      rw [if_pos rfl]
      exact h
    | false =>
      rw [if_neg Bool.false_ne_true, if_neg hlt]
      have hmute := h.mute_of_read hkept
      refine leaves_join h habove fun b size next hb => ?_
      have hgrown : Mute off k { kept with size := size, next := next } :=
        ⟨hmute.used, hmute.prev, hmute.allocatedAt, hmute.allocatedBy⟩
      exact (hb.store hoff hgrown).zero n headerSize

theorem leaves_mark (h : Spent start off k a) (hoff : off % granule = 0)
    (freedAt : Option CallSite) :
    Leaves (fun _ => Spent start off k) (Unmarked off)
      (amend k (fun h => { h with freedAt := freedAt }) a) := by
  unfold amend
  refine .get <| .lift h.unmarked fun g hg => ?_
  have hmute := h.mute_of_read hg
  exact h.store hoff ⟨hmute.used, hmute.prev, hmute.allocatedAt, hmute.allocatedBy⟩

theorem leaves_clearPayload (h : Spent start off k a) (place len : Nat) :
    Leaves (fun _ => Spent start off k) (Unmarked off) (clearPayload place len a) := by
  unfold clearPayload
  exact .lift h.unmarked fun first _ => h.zero first len

/-- The first change: the header of the block says that it is free. -/
theorem leaves_unmark {h : Header} (hread : a.read off = .ok h) :
    Leaves (fun _ => Spent a off off) (Unmarked off)
      (amend off (fun h => { h with used := false }) a) := by
  unfold amend
  refine .get ?_
  rw [hread]
  refine ⟨rfl, rfl, .inl ⟨rfl, ?_⟩⟩
  exact Header.get_store_used _ _ _

/-- Merging, marking and clearing a block between links that were looked at: it is free
from the first change on. -/
theorem leaves_merge {h : Header} {prev next : Option Nat} (hread : a.read off = .ok h)
    (hoff : off % granule = 0) (hprev : ∀ q, prev = some q → q < off ∧ q % granule = 0)
    (hnext : ∀ n, next = some n → off + headerSize ≤ n) (site : CallSite) :
    Leaves (Spent a off) (Unmarked off) ((do
      let _ ← amend off fun h => { h with used := false }
      let off ← absorb off prev
      let off ← absorb off next
      let h ← amend off fun h => { h with freedAt := some site }
      clearPayload off h.size
      return off) a) :=
  (leaves_unmark hread).bind fun _ _ hb => (leaves_absorb_back hb hprev).bind fun _ _ hc =>
    (leaves_absorb_ahead hc hoff hnext).bind fun k _ hd =>
      (leaves_mark hd hoff (some site)).bind fun g _ he =>
        (leaves_clearPayload he k g.size).bind fun _ _ hf => hf

end Work

end Arena

namespace Machine

variable {m : Machine} {off k : Nat}

/-- Whatever memory says, moving the top down to a place inside the limits clears what is
above it and gives pages back.  The rest of the arena stays as it is. -/
theorem run_moveTop_lowers {newTop : Nat} (hlo : m.arena.window.floor ≤ newTop)
    (hdown : newTop ≤ m.arena.top) (htop : m.arena.top ≤ m.arena.window.ceiling) :
    ∃ n memory, moveTop .none newTop m = .ok m.arena.top n ∧
      n.arena = { m.arena with memory := memory, top := newTop } ∧
      (∀ i, memory.get i =
        if newTop ≤ i ∧ i < m.arena.top then 0 else m.arena.memory.get i) ∧
      m.Around n ∧ (m.platform.Maps (pagesBelow m.arena.top) →
        n.platform.Maps (pagesBelow newTop)) := by
  have hpages : pagesBelow newTop ≤ pagesBelow m.arena.top :=
    Nat.div_le_div_right (Nat.add_le_add_right hdown _)
  have hcount := Nat.sub_sub_self hpages
  unfold moveTop
  rw [run_bind_ok (run_get m)]
  dsimp only
  rw [if_neg (Nat.not_lt.mpr (Nat.le_trans hdown htop)), if_neg (Nat.not_lt.mpr hlo),
    if_neg (Nat.not_lt.mpr hpages)]
  by_cases hlower : newTop < m.arena.top
  · obtain ⟨n, hrun, harena, hrepaged⟩ := run_unmapPages
      (m := { m with arena := { m.arena with
        memory := m.arena.memory.zero newTop (m.arena.top - newTop) } })
      (Nat.sub_le (pagesBelow m.arena.top) (pagesBelow newTop))
      (by rw [hcount]; exact reserved_le hlo) (Window.pagesBelow_mul_le htop)
    rw [hcount] at hrepaged
    obtain ⟨⟨⟨hw, hlock, htracing, hinstalled, hcontext, hkeep⟩, -⟩, hmapped, -⟩ := hrepaged
    refine ⟨{ n with arena := { n.arena with top := newTop } },
      m.arena.memory.zero newTop (m.arena.top - newTop), ?_, ?_, fun i => ?_,
      ⟨hw, hlock, htracing, hinstalled, hcontext, hkeep⟩, hmapped⟩
    · rw [if_pos hlower, run_bind_ok (run_onArena_ok (Arena.run_clear _ _ _)), run_bind_ok hrun,
        run_bind_ok (run_onArena_ok (Arena.run_setTop newTop _))]
      rfl
    · rw [harena]
    · rw [Memory.get_zero, Nat.add_sub_cancel' hdown]
  · obtain ⟨n, hrun, harena, hrepaged⟩ := run_unmapPages (m := m)
      (Nat.sub_le (pagesBelow m.arena.top) (pagesBelow newTop))
      (by rw [hcount]; exact reserved_le hlo) (Window.pagesBelow_mul_le htop)
    rw [hcount] at hrepaged
    obtain ⟨⟨⟨hw, hlock, htracing, hinstalled, hcontext, hkeep⟩, -⟩, hmapped, -⟩ := hrepaged
    refine ⟨{ n with arena := { n.arena with top := newTop } }, m.arena.memory, ?_, ?_,
      fun i => ?_, ⟨hw, hlock, htracing, hinstalled, hcontext, hkeep⟩, hmapped⟩
    · rw [if_neg hlower]
      dsimp only
      rw [run_bind_ok hrun, run_bind_ok (run_onArena_ok (Arena.run_setTop newTop _))]
      rfl
    · rw [harena]
    · rw [if_neg (by omega)]

/-- So the block at an offset is not marked afterwards if it is above that place, or was
not marked before. -/
theorem exists_moved_unmarked (m : Machine) (b : Arena) (off newTop : Nat)
    (hlo : b.window.floor ≤ newTop) (hdown : newTop ≤ b.top) (htop : b.top ≤ b.window.ceiling)
    (hb : newTop ≤ off ∧ off + headerSize ≤ b.top ∨ b.Unmarked off) :
    ∃ n, moveTop .none newTop { m with arena := b } = .ok b.top n ∧ n.lock = m.lock ∧
      n.arena.Unmarked off := by
  obtain ⟨n, memory, hrun, harena, hmemory, haround, -⟩ :=
    run_moveTop_lowers (m := { m with arena := b }) hlo hdown htop
  refine ⟨n, hrun, haround.lock_eq, ?_⟩
  unfold Arena.Unmarked
  rw [harena]
  refine (hmemory (off + 4)).trans ?_
  rcases hb with ⟨hlow, hroom⟩ | hzero
  · refine if_pos ⟨by omega, ?_⟩
    show off + 4 < b.top
    simp only [headerSize] at hroom
    omega
  · split
    · rfl
    · exact hzero

theorem ends_lift {α β : Type} {Q : α → Machine → Prop} {E : Fault → Machine → Prop}
    {x : Except Fault β} {f : β → HeapM α} (hE : ∀ e, E e m)
    (hf : ∀ r, x = .ok r → Ends Q E (f r m)) : Ends Q E ((liftM x >>= f) m) := by
  cases x with
  | ok r => exact hf r rfl
  | error e => exact hE e

/-- Trimming the end of the list does not mark a block that belongs to the segment it
trims. -/
theorem ends_trim_unmarked {start : Arena} (h : Arena.Spent start off k m.arena)
    (hoff : off % granule = 0) (hroom : off + headerSize ≤ start.top)
    (hfloor : start.window.floor ≤ start.top) (htop : start.top ≤ start.window.ceiling) :
    Ends (fun _ n => n.lock = m.lock ∧ n.arena.Unmarked off)
      (fun _ n => n.lock = m.lock ∧ n.arena.Unmarked off) (trim .none k m) := by
  have hsame : m.lock = m.lock ∧ m.arena.Unmarked off := ⟨rfl, h.unmarked⟩
  have hk := h.le
  rw [← h.top_eq] at hroom
  rw [← h.top_eq, ← h.window_eq] at hfloor htop
  unfold trim
  rw [run_bind_ok (run_get m)]
  dsimp only
  by_cases hlast : k = m.arena.last
  · rw [if_pos hlast]
    refine ends_lift (fun _ => hsame) fun g hg => ?_
    have hfits := (Arena.read_eq_ok hg).1
    by_cases hu : g.used = true
    · rw [if_pos hu]
      exact hsame
    · rw [if_neg hu]
      by_cases hremove : k ≠ 0 ∧ m.arena.window.floor ≤ k
      · rw [if_pos hremove]
        refine ends_lift (fun _ => hsame) fun prev _ => ?_
        cases prev with
        | none => exact hsame
        | some p =>
          refine ends_lift (fun _ => hsame) fun before _ => ?_
          -- what is written in front of the block does not matter: all from `k` on is cleared
          obtain ⟨n, hrun, hn⟩ := exists_moved_unmarked m { m.arena with
              memory := Header.store m.arena.memory p { before with next := none }
              last := p } off k hremove.2 (Nat.le_trans (Nat.le_add_right k headerSize) hfits) htop
            (.inl ⟨hk, hroom⟩)
          have hwrite : onArena (do
              Arena.writeHeader p { before with next := none }
              Arena.setLast p) m = .ok () { m with arena := { m.arena with
                memory := Header.store m.arena.memory p { before with next := none }
                last := p } } := run_onArena_ok rfl
          rw [run_bind_ok hwrite, run_bind_ok hrun]
          exact hn
      · rw [if_neg hremove]
        refine ends_lift (fun _ => hsame) fun payload hpayload => ?_
        refine ends_lift (fun _ => hsame) fun stop _ => ?_
        by_cases hcut : m.arena.window.floor < stop
        · rw [if_pos hcut]
          obtain ⟨rfl, -⟩ := Word.add_eq_ok.mp hpayload
          have hmute := h.mute_of_read hg
          have hshort : Arena.Mute off k
              { g with size := m.arena.window.floor - (k + headerSize) } :=
            ⟨hmute.used, hmute.prev, hmute.allocatedAt, hmute.allocatedBy⟩
          have hle : k + headerSize + (m.arena.window.floor - (k + headerSize)) ≤
              m.arena.top := by omega
          obtain ⟨n, hrun, hn⟩ := exists_moved_unmarked m { m.arena with
              memory := Header.store m.arena.memory k
                { g with size := m.arena.window.floor - (k + headerSize) } } off
            (k + headerSize + (m.arena.window.floor - (k + headerSize)))
            (show m.arena.window.floor ≤ _ by omega) hle htop
            (.inr (h.store hoff hshort).unmarked)
          rw [run_bind_ok (run_onArena_ok (Arena.run_writeHeader _ _ _)), run_bind_ok hrun]
          exact hn
        · rw [if_neg hcut]
          exact hsame
  · rw [if_neg hlast]
    exact hsame

/-- Work on the arena leaves the lock alone. -/
theorem ends_onArena {α : Type} {Q : α → Arena → Prop} {E : Arena → Prop} {x : ArenaM α}
    (h : Arena.Leaves Q E (x m.arena)) :
    Ends (fun r n => n.lock = m.lock ∧ Q r n.arena) (fun _ n => n.lock = m.lock ∧ E n.arena)
      (onArena x m) := by
  cases hx : x m.arena with
  | ok r a =>
    rw [hx] at h
    rw [run_onArena_ok hx]
    exact ⟨rfl, h⟩
  | error e a =>
    rw [hx] at h
    rw [run_onArena_error hx]
    exact ⟨rfl, h⟩

/-! ## Giving a block back -/

section Releasing

variable {h : Header} {site : CallSite}

/-- What the look finds wrong is found before anything is changed. -/
theorem release_of_look_error {e : Fault} (hread : m.arena.read off = .ok h)
    (hu : h.used = true) (hlook : m.arena.look off h = .error e) (callback : Callback) :
    releaseSegment callback off site m = .error e m := by
  have hused : ¬ (!h.used) = true := by simp [hu]
  unfold Arena.look at hlook
  unfold releaseSegment
  rw [run_bind_ok (run_get m)]
  dsimp only
  rw [hread, run_bind_ok (run_lift_ok _ _), if_neg hused]
  cases hprev : m.arena.predecessor off h with
  | error f =>
    rw [hprev] at hlook
    cases hlook
    rw [run_bind_error (run_lift_error _ _)]
  | ok prev =>
    rw [hprev] at hlook
    rw [run_bind_ok (run_lift_ok _ _)]
    cases hnext : m.arena.successor off h with
    | error f =>
      rw [hnext] at hlook
      cases hlook
      rw [run_bind_error (run_lift_error _ _)]
    | ok next =>
      rw [hnext] at hlook
      rw [run_bind_ok (run_lift_ok _ _),
        show inspectNeighbors m.arena prev next = .error e from hlook,
        run_bind_error (run_lift_error _ _)]

/-- What it does not find is found after the block was marked as free. -/
theorem ends_release_unmarked (hread : m.arena.read off = .ok h) (hu : h.used = true)
    (hoff : off % granule = 0) (hlook : m.arena.look off h = .ok ())
    (hprev : m.arena.predecessor off h = .ok h.prev)
    (hnext : m.arena.successor off h = .ok h.next)
    (hfloor : m.arena.window.floor ≤ m.arena.top) (htop : m.arena.top ≤ m.arena.window.ceiling) :
    Ends (fun _ n => n.lock = m.lock) (fun _ n => n.lock = m.lock ∧ n.arena.Unmarked off)
      (releaseSegment .none off site m) := by
  have hused : ¬ (!h.used) = true := by simp [hu]
  have hback := fun q hq => ((Arena.checks_predecessor off h).cond_of_eq_ok hprev).2 q hq
  have hahead : ∀ n, h.next = some n → off + headerSize ≤ n := fun n hn => by
    have := ((Arena.checks_successor off h).cond_of_eq_ok hnext n hn).1
    omega
  have hroom := (Arena.read_eq_ok hread).1
  unfold Arena.look at hlook
  rw [hprev, hnext] at hlook
  unfold releaseSegment
  rw [run_bind_ok (run_get m)]
  dsimp only
  rw [hread, run_bind_ok (run_lift_ok _ _), if_neg hused, hprev, run_bind_ok (run_lift_ok _ _),
    hnext, run_bind_ok (run_lift_ok _ _),
    show inspectNeighbors m.arena h.prev h.next = .ok () from hlook, run_bind_ok (run_lift_ok _ _)]
  refine (ends_onArena (Arena.leaves_merge hread hoff hback hahead site)).bind ?_
  rintro k n ⟨hlock, hspent⟩
  have htrim : Ends (fun _ k => k.lock = m.lock ∧ k.arena.Unmarked off)
      (fun _ k => k.lock = m.lock ∧ k.arena.Unmarked off) (trim .none k n) :=
    (ends_trim_unmarked hspent hoff hroom hfloor htop).mono
      (fun _ _ hk => ⟨hk.1.trans hlock, hk.2⟩) fun _ _ hk => ⟨hk.1.trans hlock, hk.2⟩
  refine htrim.bind fun _ k hk => ?_
  rw [run_bind_ok (run_get k)]
  exact ends_lift (fun _ => hk) fun _ _ => hk.1

variable {address : Nat}

/-- Giving a block back reports what the look finds wrong. -/
theorem reports_of_look {error : HeapError} (hl : m.lock = .unlocked) (ho : m.Open)
    (haddress : address ≠ 0) (hlocate : m.arena.locate address = .ok off)
    (hread : m.arena.read off = .ok h) (hu : h.used = true)
    (hlook : m.arena.look off h = .error (.detected error)) (site : CallSite) :
    m.Reports site error (free .none address site m) := by
  obtain ⟨j, hfreed⟩ := exists_freed hl ho haddress hlocate site
  have hrun : releaseSegment .none off site (m.entered site j) =
      .error (.detected error) (m.entered site j) :=
    release_of_look_error (m := m.entered site j) hread hu hlook .none
  rw [hrun] at hfreed
  obtain ⟨j', hreport⟩ := hfreed rfl _ rfl
  exact ⟨j', hreport.trans (congrArg _ (left_entered hl site j j'))⟩

/-- What the look does not find leaves the block marked as free. -/
theorem ends_free_unmarked (hl : m.lock = .unlocked) (ho : m.Open)
    (haddress : address ≠ 0) (hlocate : m.arena.locate address = .ok off)
    (hrelease : ∀ j, Ends (fun _ n => n.lock = (m.entered site j).lock)
      (fun _ n => n.lock = (m.entered site j).lock ∧ n.arena.Unmarked off)
      (releaseSegment .none off site (m.entered site j))) :
    Ends (fun _ _ => True) (fun _ n => n.arena.Unmarked off) (free .none address site m) := by
  unfold free
  rw [if_neg haddress]
  refine Ends.bind (Q := fun _ _ => True) (ends_reporting site (fun _ _ _ h => h) ?_)
    fun _ _ _ => trivial
  unfold tryFree
  rw [run_bind_ok (run_log _ m)]
  refine ends_locked (m := { m with journal := m.journal.push (.freeing address site) }) hl site
    (fun hclosed => absurd ho hclosed) fun _ j => ?_
  rw [run_bind_ok (run_get _)]
  show Ends _ _ ((liftM (m.arena.locate address) >>= fun off =>
    releaseSegment .none off site) (m.entered site j))
  rw [hlocate, run_bind_ok (run_lift_ok _ _)]
  refine (hrelease j).mono (fun _ n hn => ⟨?_, fun _ => trivial⟩) fun _ n hn => ⟨?_, hn.2⟩
  · rw [hn]
    rfl
  · rw [hn.1]
    rfl

/-- Whatever memory says of the block and its neighbors, an error in giving it back comes
before the first change or after the block was marked as free, as the look decides. -/
theorem free_decided (hl : m.lock = .unlocked) (ho : m.Open) (haddress : address ≠ 0)
    (hlocate : m.arena.locate address = .ok off) (hoff : off % granule = 0)
    (hroom : off + headerSize ≤ m.arena.top)
    (hguard : Header.guardAt m.arena.memory off = guardWord)
    (hu : (Header.load m.arena.memory off).used = true)
    (hfloor : m.arena.window.floor ≤ m.arena.top) (htop : m.arena.top ≤ m.arena.window.ceiling)
    (site : CallSite) :
    (¬ m.arena.Vouched off → ∃ error, m.Reports site error (free .none address site m)) ∧
      (m.arena.Vouched off → Ends (fun _ _ => True) (fun _ n => n.arena.Unmarked off)
        (free .none address site m)) := by
  have hword : m.arena.top < 2 ^ 64 := by
    have := Arena.top_lt htop
    omega
  have hread := (Arena.checks_read hroom hword).eq_ok hguard
  have hlook := Arena.checks_look hroom hword
  constructor
  · intro hbad
    obtain ⟨error, herror⟩ := hlook.eq_error hbad
    exact ⟨error, reports_of_look hl ho haddress hlocate hread hu herror site⟩
  · intro hgood
    have hprev := (Arena.checks_predecessor (a := m.arena) off
      (Header.load m.arena.memory off)).eq_ok ⟨hgood.back.1, fun q hq => (hgood.back.2 q hq).1⟩
    have hnext := (Arena.checks_successor off (Header.load m.arena.memory off)).eq_ok
      fun q hq => (hgood.ahead q hq).1
    exact ends_free_unmarked hl ho haddress hlocate fun j =>
      ends_release_unmarked (m := m.entered site j) hread hu hoff (hlook.eq_ok hgood) hprev hnext
        hfloor htop

end Releasing

end Machine

end GuardedHeap
