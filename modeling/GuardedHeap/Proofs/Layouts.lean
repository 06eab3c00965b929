/-
  Proofs/Layouts.lean --- memory for a layout, from giving it out to taking it back.

  WHAT THIS FILE IS FOR.  A pointer of a large alignment says nothing about its block:
  the heap trusts the eight bytes in front of it to lead back there.  These bytes lie in
  memory that was given out, so they have to outlast whatever clients do until the
  pointer comes back.

  WHAT IS PROVED.  Memory for a layout is aligned, clear, and inside one new block.
  Whatever happens beside that block, giving the pointer back takes that block and
  no other.  Moving such memory keeps its bytes and takes exactly the old block.
-/
import GuardedHeap.Proofs.Canonical
import GuardedHeap.Proofs.Rejection

set_option autoImplicit false

namespace GuardedHeap

/-! ## Memory inside a block -/

/-- Memory for a layout lies at an address inside the payload of the block of `size`
bytes at an offset.  With a large alignment the slot in front of it lies there as well
and leads back to the payload. -/
structure Arena.Houses (a : Arena) (l : Layout) (address off size : Nat) : Prop where
  multiple : address % l.align = 0
  payload_le : a.payload off ≤ address
  end_le : address + l.size ≤ a.payload off + size
  slot_le : ¬ l.Plain → a.payload off + Layout.slotSize ≤ address
  slot_eq : ¬ l.Plain →
    a.memory.word (address - Layout.slotSize - a.window.base) Layout.slotSize = a.payload off

namespace Machine

variable {m : Machine} {bs : List Block} {off address : Nat} {b : Block} {l : Layout}

/-- The block that a pointer owns houses its memory. -/
theorem Served.houses (hs : m.Served bs) (hb : (off, b) ∈ live 0 bs)
    (ho : (l.grant address).Owns m.arena.window.base (off, b)) (hmod : address % l.align = 0)
    (hstop : address + l.size ≤ m.arena.window.base + off + headerSize + b.size) :
    m.arena.Houses l address off b.size := by
  have hpayload := (hs.payload_eq hb).1
  refine ⟨hmod, hpayload ▸ ho.lies.1, hpayload ▸ hstop, fun hl => ?_, fun hl => ?_⟩
  all_goals
    unfold Layout.grant at ho
    rw [if_neg hl] at ho
  · rw [hpayload]
    exact ho.2.slot_le
  · exact word_slot hs hb ho.2

theorem Served.get_eq (hs : m.Served bs) (hb : (off, b) ∈ live 0 bs)
    (hlow : m.arena.window.base + off + headerSize ≤ address) {i : Nat}
    (hi : address + i < m.arena.window.base + off + headerSize + b.size) :
    m.arena.memory.get (address - m.arena.window.base + i) =
      b.bytes (address - (m.arena.window.base + off + headerSize) + i) := by
  obtain ⟨⟨prev, next, hstands⟩, -⟩ := hs.stands hb
  rw [← hstands.payload _ (by omega)]
  congr 1
  omega

theorem Served.liveBlocks_perm (hs : m.Served bs) {rest : List (Nat × Block)}
    (h : ((off, b) :: rest).Perm (live 0 bs)) :
    m.arena.liveBlocks.Perm ((off, b.size) :: rest.map fun x => (x.1, x.2.size)) := by
  rw [hs.sound.lists.liveBlocks_eq]
  exact (h.map fun x => (x.1, x.2.size)).symm

end Machine

/-! ## Pointers and their blocks -/

section Ownership

variable {base : Nat} {g g' : Grant} {bs : List Block} {x y : Nat × Block}

/-- A pointer owns at most one live block. -/
theorem Grant.Owns.unique (hx : x ∈ live 0 bs) (hy : y ∈ live 0 bs) (ox : g.Owns base x)
    (oy : g.Owns base y) : x = y := by
  have hpair : (live 0 bs).Pairwise fun x y => g.Owns base x → g.Owns base y → x = y := by
    refine (pairwise_live 0 bs).imp ?_
    intro x y hle ox oy
    have h1 := ox.lies.2
    have h2 := oy.lies.1
    have he : x.2.extent = headerSize + x.2.size := rfl
    simp only [headerSize] at *
    omega
  exact List.Pairwise.forall_of_forall_of_flip (fun _ _ _ _ => rfl) hpair
    (hpair.imp fun h oy ox => (h ox oy).symm) hx hy ox oy

theorem Matches.owner_unique {ledger : List Grant} (hm : Matches base ledger (live 0 bs))
    (hx : x ∈ live 0 bs) (hg : g ∈ ledger) (hg' : g' ∈ ledger) (ho : g.Owns base x)
    (ho' : g'.Owns base x) : g' = g := by
  by_contra hne
  obtain ⟨y, rest, oy, hperm, hrest⟩ := hm.pick hg
  obtain rfl : x = y := ho.unique hx (hperm.subset List.mem_cons_self) oy
  obtain ⟨z, rest', oz, hperm', -⟩ := hrest.pick ((List.mem_erase_of_ne hne).mpr hg')
  have hz : z ∈ rest := hperm'.subset List.mem_cons_self
  obtain rfl : x = z := ho'.unique hx (hperm.subset (List.mem_cons_of_mem _ hz)) oz
  exact fst_ne_of_perm hperm hz rfl

/-- A pointer that is held and that a call does not pass is held afterwards. -/
theorem Call.mem_settle {c : Call} {ledger : List Grant} (reply : Reply) (hg : g ∈ ledger)
    (hp : ∀ p ∈ c.pointer, p ≠ g.address) : g ∈ c.settle ledger reply := by
  have hgain : ∀ {g' : Grant} {ledger : List Grant}, g ∈ ledger → g ∈ gain g' ledger := by
    intro g' ledger hg
    unfold gain
    split
    · exact hg
    · exact List.mem_cons_of_mem _ hg
  have herase : ∀ {address : Nat} {g' : Grant}, c.pointer = some address → g'.address = address →
      g ∈ ledger.erase g' := by
    intro address g' hc hg'
    refine (List.mem_erase_of_ne fun h => hp address (Option.mem_def.mpr hc) ?_).mpr hg
    rw [← hg', h]
  unfold Call.settle
  split
  · exact hgain hg
  · exact herase rfl rfl
  · exact hgain (herase rfl rfl)
  · exact hgain hg
  · exact herase rfl rfl
  · split
    · exact hgain (herase rfl rfl)
    · split
      · exact hg
      · exact hgain (herase rfl rfl)
  · exact hg

end Ownership

/-! ## What happens beside a block -/

namespace World

open Machine

/-- What may happen beside the block of `size` bytes at an offset: every step but a call
that names it. -/
inductive StepBeside (off size : Nat) (w : World) : World → Prop
  /-- a permitted call that does not name the block returns -/
  | call {c : Call} {site : CallSite} {reply : Reply} {m : Machine}
      (permitted : c.Permitted w.ledger) (beside : ¬ c.Names w.machine.arena.window off size)
      (run : c.run .none site w.machine = .ok reply m) :
      StepBeside off size w ⟨m, c.settle w.ledger reply⟩
  /-- a client writes into memory it holds, in the block or beside it -/
  | write {g : Grant} {place : Nat} (held : g ∈ w.ledger)
      (covered : g.Covers w.machine.arena place) (b : UInt8) :
      StepBeside off size w ⟨w.machine.poke place b, w.ledger⟩
  /-- a byte that has no value in its header turns out to be another one -/
  | blank {s : Segment} {d : Nat} (stands : s ∈ w.machine.arena.walk.segments)
      (unset : s.header.Blank d) (b : UInt8) :
      StepBeside off size w ⟨w.machine.poke (s.offset + d) b, w.ledger⟩
  /-- another context runs -/
  | switch (context : Context) :
      StepBeside off size w ⟨{ w.machine with context := context }, w.ledger⟩
  /-- the platform has other frames to give -/
  | supply (frames : List Nat) :
      StepBeside off size w
        ⟨{ w.machine with platform := { w.machine.platform with frames := frames } }, w.ledger⟩

/-- A pointer is held, and owns the block of `size` bytes at an offset. -/
def Keeps (w : World) (g : Grant) (off size : Nat) : Prop :=
  ∃ bs b, w.Held bs ∧ (off, b) ∈ live 0 bs ∧ b.size = size ∧ g ∈ w.ledger ∧
    g.Owns w.machine.arena.window.base (off, b)

section

variable {w w' : World} {g : Grant} {off size : Nat}

/-- A step beside a block leaves it to its pointer. -/
theorem Keeps.step (h : w.Keeps g off size) (hs : w.StepBeside off size w') :
    w'.Keeps g off size := by
  obtain ⟨bs, b, hheld, hb, rfl, hg, ho⟩ := h
  cases hs with
  | @call c site reply m permitted beside run =>
    have hcall := ends_call hheld permitted site
    rw [run] at hcall
    obtain ⟨bs', hheld', hwindow, hkept, -⟩ := hcall
    refine ⟨bs', b, hheld', hkept _ hb beside, rfl, ?_, ?_⟩
    · refine Call.mem_settle reply hg fun p hp heq => beside ⟨p, hp, ?_⟩
      rw [heq]
      exact ho.lies
    · show g.Owns m.arena.window.base (off, b)
      rw [hwindow]
      exact ho
  | @write g' place held covered byte =>
    obtain ⟨off', b', bs', ho', hb', hwritten, hkept, -, hheld'⟩ :=
      hheld.write held covered byte
    by_cases hsame : g' = g
    · -- written through its own pointer
      subst hsame
      cases ho'.unique hb' hb ho
      obtain ⟨-, -, howns⟩ := covers_lies hheld.served hb ho covered
      exact ⟨bs', _, hheld', hwritten, rfl, hg, howns byte⟩
    · refine ⟨bs', b, hheld', hkept _ hb fun heq => hsame ?_, rfl, hg, ho⟩
      rw [← heq] at ho'
      exact hheld.owned.owner_unique hb hg held ho ho'
  | blank stands unset byte => exact ⟨bs, b, hheld.blank stands unset byte, hb, rfl, hg, ho⟩
  | switch context => exact ⟨bs, b, hheld.switch context, hb, rfl, hg, ho⟩
  | supply frames => exact ⟨bs, b, hheld.supply frames, hb, rfl, hg, ho⟩

/-- So does everything that happens beside it. -/
theorem Keeps.run (h : w.Keeps g off size)
    (hrun : Relation.ReflTransGen (StepBeside off size) w w') : w'.Keeps g off size := by
  induction hrun with
  | refl => exact h
  | tail _ hs ih => exact ih.step hs

/-- The pointer of a block takes it back, and no other. -/
theorem Keeps.freeLayout {l : Layout} {address : Nat} (h : w.Keeps (l.grant address) off size)
    (ho : w.machine.Open) (site : CallSite) :
    ∃ m, freeLayout .none address l site w.machine = .ok () m ∧
      w.machine.arena.liveBlocks.Perm ((off, size) :: m.arena.liveBlocks) := by
  obtain ⟨bs, b, hheld, hb, rfl, -, howns⟩ := h
  have hends := ends_giveBack hheld.served hheld.installed_eq hb howns site
  cases hrun : Machine.freeLayout .none address l site w.machine with
  | error e n =>
    rw [hrun] at hends
    exact absurd ho hends.1
  | ok r n =>
    rw [hrun] at hends
    obtain ⟨gone, new, bs', ⟨rfl, rfl⟩, hex⟩ := hends
    refine ⟨n, rfl, ?_⟩
    rw [hex.sound.lists.liveBlocks_eq]
    exact hheld.served.liveBlocks_perm hex.perm

/-! ## Giving out -/

variable {bs : List Block} {l : Layout} {address : Nat} {m : Machine} {site : CallSite}

/-- Memory for a layout is clear, lies in one new block, and its pointer keeps that block. -/
theorem Held.lend (h : w.Held bs)
    (hrun : allocateLayout .none l site w.machine = .ok address m) :
    ∃ off size, m.arena.liveBlocks.Perm ((off, size) :: w.machine.arena.liveBlocks) ∧
      m.arena.Houses l address off size ∧
      (∀ i, i < l.size → m.arena.memory.get (address - m.arena.window.base + i) = 0) ∧
      Keeps ⟨m, gain (l.grant address) w.ledger⟩ (l.grant address) off size := by
  have hends := ends_lend h.served h.installed_eq l site
  rw [hrun] at hends
  obtain ⟨_, _, bs', @⟨off, b, howns, hmod, hstop, hclear⟩, hex⟩ := hends
  have hs' := hex.served h.served
  have hperm := hex.perm_rest (List.Perm.refl _)
  have hb : (off, b) ∈ live 0 bs' := hperm.subset List.mem_cons_self
  have howned := (h.owned.cons howns).perm hperm
  have hlow : w.machine.arena.window.base + off + headerSize ≤ address := howns.lies.1
  rw [← hex.around.window_eq] at howns hstop hclear howned hlow
  refine ⟨off, b.size, ?_, hs'.houses hb howns hmod hstop, ?_, bs', b,
    ⟨hs', hex.around.installed_eq.trans h.installed_eq, ?_⟩, hb, rfl, ?_, howns⟩
  · rw [h.served.sound.lists.liveBlocks_eq]
    exact hs'.liveBlocks_perm hperm
  · intro i hi
    rw [hs'.get_eq hb hlow (by omega)]
    exact hclear i hi
  · unfold gain
    rwa [if_neg howns.address_ne_zero]
  · unfold gain
    rw [if_neg howns.address_ne_zero]
    exact List.mem_cons_self

/-! ## Moving -/

/-- Memory of a large alignment moves with its bytes, and takes its old block along. -/
theorem Held.move {newSize target : Nat} (h : w.Held bs) (hl : ¬ l.Plain)
    (hg : l.grant address ∈ w.ledger)
    (hrun : reallocateLayout .none address l newSize site w.machine = .ok target m)
    (hne : target ≠ 0) :
    target % l.align = 0 ∧
      (∀ i, i < min l.size newSize →
        m.arena.memory.get (target - m.arena.window.base + i) =
          w.machine.arena.memory.get (address - m.arena.window.base + i)) ∧
      ∃ off size off' size' rest, w.machine.arena.Houses l address off size ∧ off' ≠ off ∧
        w.machine.arena.liveBlocks.Perm ((off, size) :: rest) ∧
        m.arena.liveBlocks.Perm ((off', size') :: rest) := by
  obtain ⟨⟨off, b⟩, rest, ho, hperm, -⟩ := h.owned.pick hg
  have hb : (off, b) ∈ live 0 bs := hperm.subset List.mem_cons_self
  have hbehind : Behind w.machine.arena.window.base l address off b := by
    unfold Layout.grant at ho
    rw [if_neg hl] at ho
    exact ho.2
  have hends := ends_reallocateLayout h.served h.installed_eq hl hb hbehind newSize site
  rw [hrun] at hends
  obtain ⟨_, _, bs', hmoved, hex⟩ := hends
  have hs' := hex.served h.served
  cases hmoved with
  | refused => exact absurd rfl hne
  | @moved newLayout _ off' d hsome hother hnew hcopy =>
    obtain ⟨hsize, halign⟩ := Layout.ofSizeAlign?_eq_some hsome
    have hperm' := hex.perm_rest hperm
    have hd : (off', d) ∈ live 0 bs' := hperm'.subset List.mem_cons_self
    have hslot := hbehind.slot_le
    have hstop := hbehind.stop_le
    have hslot' := hnew.slot_le
    have hstop' := hnew.stop_le
    refine ⟨halign ▸ hnew.aligned, ?_, off, b.size, off', d.size, _,
      h.served.houses hb ho hbehind.aligned hstop, hother, h.served.liveBlocks_perm hperm,
      hs'.liveBlocks_perm hperm'⟩
    intro i hi
    rw [← hex.around.window_eq] at hslot' hstop' hcopy
    rw [hs'.get_eq hd (by omega) (by omega), hcopy i hi, hex.around.window_eq]
    exact (h.served.get_eq hb (by omega) (by omega)).symm

end

/-! ## Every reachable world -/

/-- Whatever happens beside a block, giving the pointer back takes that block and no
other. -/
def Redeems (w : World) (l : Layout) (address off size : Nat) : Prop :=
  ∀ w', Relation.ReflTransGen (StepBeside off size) w w' → w'.machine.Open → ∀ site,
    ∃ m, freeLayout .none address l site w'.machine = .ok () m ∧
      w'.machine.arena.liveBlocks.Perm ((off, size) :: m.arena.liveBlocks)

/-- In every world well-behaved clients lead to, memory that is given out for a layout is
aligned, clear and inside one new block, and its pointer gives that block back.  Moving
memory of a large alignment changes nothing where there is no layout of the new size;
otherwise it keeps the alignment and the bytes, and takes the old block and no other. -/
theorem Reachable.honors_layouts {w : World} (h : w.Reachable) (l : Layout) (site : CallSite) :
    (∀ address m, allocateLayout .none l site w.machine = .ok address m →
      ∃ off size, m.arena.liveBlocks.Perm ((off, size) :: w.machine.arena.liveBlocks) ∧
        m.arena.Houses l address off size ∧
        (∀ i, i < l.size → m.arena.memory.get (address - m.arena.window.base + i) = 0) ∧
        Redeems ⟨m, gain (l.grant address) w.ledger⟩ l address off size) ∧
    (¬ l.Plain → ∀ address, l.grant address ∈ w.ledger → ∀ newSize,
      (Layout.ofSizeAlign? newSize l.align = none →
        reallocateLayout .none address l newSize site w.machine = .ok 0 w.machine) ∧
      ∀ target m, reallocateLayout .none address l newSize site w.machine = .ok target m →
        target ≠ 0 → target % l.align = 0 ∧
          (∀ i, i < min l.size newSize →
            m.arena.memory.get (target - m.arena.window.base + i) =
              w.machine.arena.memory.get (address - m.arena.window.base + i)) ∧
          ∃ off size off' size' rest, w.machine.arena.Houses l address off size ∧ off' ≠ off ∧
            w.machine.arena.liveBlocks.Perm ((off, size) :: rest) ∧
            m.arena.liveBlocks.Perm ((off', size') :: rest)) := by
  obtain ⟨bs, hheld⟩ := h.held
  constructor
  · intro address m hrun
    obtain ⟨off, size, hperm, hhouses, hclear, hkeeps⟩ := hheld.lend hrun
    exact ⟨off, size, hperm, hhouses, hclear, fun w' hsteps ho site' =>
      (hkeeps.run hsteps).freeLayout ho site'⟩
  · intro hl address hg newSize
    constructor
    · intro hnone
      unfold reallocateLayout
      rw [if_neg hl, hnone]
      rfl
    · intro target m hrun hne
      exact hheld.move hl hg hrun hne

/-- In the small heap, memory of a large alignment outlasts the block beside it and is then
given back as a whole; it moves with its bytes, but to no size that is no layout. -/
theorem honors_layouts_smallWorld :
    (∃ m, freeLayout .none 0x10000100 smallLayout ⟨4⟩ smallHalf = .ok () m ∧
      smallHalf.arena.liveBlocks.Perm ((176, 336) :: m.arena.liveBlocks)) ∧
    (∃ m, reallocateLayout .none 0x10000100 smallLayout 100 ⟨4⟩ smallWorld.machine =
        .ok 0x10000300 m ∧
      ∀ i, i < 64 → m.arena.memory.get (0x10000300 - m.arena.window.base + i) =
        smallWorld.machine.arena.memory.get (0x10000100 - m.arena.window.base + i)) ∧
    reallocateLayout .none 0x10000100 smallLayout (2 ^ 63) ⟨4⟩ smallWorld.machine =
      .ok 0 smallWorld.machine := by
  obtain ⟨hlend, -⟩ := Reachable.honors_layouts reachable_smallBlock smallLayout ⟨2⟩
  obtain ⟨-, hmove⟩ := Reachable.honors_layouts reachable_smallWorld smallLayout ⟨4⟩
  have hheld : smallLayout.grant 0x10000100 ∈ smallWorld.ledger := List.mem_cons_self
  refine ⟨?_, ?_, ?_⟩
  · obtain ⟨off, size, hperm, -, -, hredeems⟩ := hlend _ _ run_smallLayout
    have hbefore : smallBlock.machine.arena.liveBlocks = [(0, 112)] := by decide +kernel
    have hafter : smallWorld.machine.arena.liveBlocks = [(0, 112), (176, 336)] := by
      decide +kernel
    rw [hbefore, hafter] at hperm
    cases List.perm_singleton.mp (hperm.trans (List.Perm.swap _ _ _)).cons_inv
    have hfree : free .none 0x10000040 ⟨3⟩ smallWorld.machine = .ok true smallHalf :=
      run_of_returns (by decide +kernel)
    have hbase : smallWorld.machine.arena.window.base = 0x10000000 := by decide +kernel
    have hstep := @StepBeside.call 176 336 smallWorld (.free 0x10000040) ⟨3⟩ _ _
      (Or.inr (List.mem_cons_of_mem _ (List.mem_singleton_self _))) (by
        rintro ⟨p, hp, hlow, -⟩
        cases hp
        rw [hbase] at hlow
        exact absurd hlow (by decide)) (run_bind_ok hfree)
    exact hredeems _ (Relation.ReflTransGen.single hstep) (by decide +kernel) ⟨4⟩
  · obtain ⟨-, hmoved⟩ := hmove (by decide) _ hheld 100
    have hrun : reallocateLayout .none 0x10000100 smallLayout 100 ⟨4⟩ smallWorld.machine =
        .ok 0x10000300 (after (reallocateLayout .none 0x10000100 smallLayout 100 ⟨4⟩)
          smallWorld.machine) := run_of_returns (by decide +kernel)
    obtain ⟨-, hbytes, -⟩ := hmoved _ _ hrun (by decide)
    exact ⟨_, hrun, hbytes⟩
  · exact (hmove (by decide) _ hheld (2 ^ 63)).1 (by decide)

end World

end GuardedHeap
