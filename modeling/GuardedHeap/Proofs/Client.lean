/-
  Proofs/Client.lean --- well-behaved clients of a heap.

  WHAT THIS FILE IS FOR.  Clients keep what they were given and pass nothing else:
  the `ledger` of a world lists the pointers that were handed out and not given
  back.  Between calls a client may write into memory it holds, bytes without a value
  may be any, contexts change, and the platform may get other frames.  A world is
  reachable when clients that behave so lead to it from a heap that was just installed.

  WHAT IS PROVED.  In every reachable world the heap is sound and its live blocks
  are exactly those behind the pointers of the ledger.  Whatever a permitted call
  does, it touches no live block other than the one its pointer lies in.
-/
import GuardedHeap.Call
import GuardedHeap.Proofs.Aligned
import GuardedHeap.Proofs.Backing.Run

set_option autoImplicit false

namespace GuardedHeap

/-! ## What clients hold -/

/-- A pointer that was handed out, with its layout where that has a large
alignment. -/
structure Grant where
  address : Nat
  layout : Option Layout
  deriving DecidableEq

/-- What a client holds that was given memory for a layout. -/
def Layout.grant (l : Layout) (address : Nat) : Grant :=
  ⟨address, if l.Plain then none else some l⟩

/-- A client may pass a null address, and what it holds. -/
def MayPass (ledger : List Grant) (g : Grant) : Prop :=
  g.address = 0 ∧ g.layout = none ∨ g ∈ ledger

/-- A well-behaved client passes only what it holds. -/
def Call.Permitted (ledger : List Grant) : Call → Prop
  | .free address => MayPass ledger ⟨address, none⟩
  | .reallocate address _ => MayPass ledger ⟨address, none⟩
  | .freeLayout address l => MayPass ledger (l.grant address)
  | .reallocateLayout address l _ => MayPass ledger (l.grant address)
  | _ => True

/-- The pointer a call names, if it names one. -/
def Call.pointer : Call → Option Nat
  | .free address => some address
  | .reallocate address _ => some address
  | .freeLayout address _ => some address
  | .reallocateLayout address _ _ => some address
  | _ => none

/-- Calls that may hand out a pointer. -/
def Call.Lends : Call → Prop
  | .allocate _ => True
  | .reallocate _ _ => True
  | .allocateLayout _ => True
  | .reallocateLayout _ _ _ => True
  | _ => False

/-- A call names the block of `size` bytes at an offset when its pointer lies in the
payload. -/
def Call.Names (c : Call) (w : Window) (off size : Nat) : Prop :=
  ∃ p ∈ c.pointer, w.base + off + headerSize ≤ p ∧ p ≤ w.base + off + headerSize + size

/-- A pointer that is not null is held from now on. -/
def gain (g : Grant) (ledger : List Grant) : List Grant :=
  if g.address = 0 then ledger else g :: ledger

/-- What clients hold after a call has returned. -/
def Call.settle (ledger : List Grant) : Call → Reply → List Grant
  | .allocate _, .pointer p => gain ⟨p, none⟩ ledger
  | .free address, _ => ledger.erase ⟨address, none⟩
  | .reallocate address _, .pointer p => gain ⟨p, none⟩ (ledger.erase ⟨address, none⟩)
  | .allocateLayout l, .pointer p => gain (l.grant p) ledger
  | .freeLayout address l, _ => ledger.erase (l.grant address)
  | .reallocateLayout address l newSize, .pointer p =>
    if l.Plain then gain ⟨p, none⟩ (ledger.erase ⟨address, none⟩)
    else
      match Layout.ofSizeAlign? newSize l.align with
      | none => ledger
      | some newLayout => gain (newLayout.grant p) (ledger.erase (l.grant address))
  | _, _ => ledger

/-- The offsets a client may write to that holds a pointer: the payload of its block,
or as much of it as was asked for with a layout. -/
def Grant.Covers (g : Grant) (a : Arena) (off : Nat) : Prop :=
  g.address - a.window.base ≤ off ∧
    off < g.address - a.window.base +
      match g.layout with
      | none => Header.sizeAt a.memory (g.address - a.window.base - headerSize)
      | some l => l.size

/-! ## Worlds -/

/-- A heap with all that clients hold of it. -/
structure World where
  machine : Machine
  ledger : List Grant

namespace World

/-- What may happen next. -/
inductive Step (w : World) : World → Prop
  /-- a permitted call returns -/
  | call {c : Call} {site : CallSite} {reply : Reply} {m : Machine}
      (permitted : c.Permitted w.ledger) (run : c.run .none site w.machine = .ok reply m) :
      Step w ⟨m, c.settle w.ledger reply⟩
  /-- a client writes into memory it holds -/
  | write {g : Grant} {off : Nat} (held : g ∈ w.ledger) (covered : g.Covers w.machine.arena off)
      (b : UInt8) : Step w ⟨w.machine.poke off b, w.ledger⟩
  /-- a byte that has no value in its header turns out to be another one -/
  | blank {s : Segment} {d : Nat} (stands : s ∈ w.machine.arena.walk.segments)
      (unset : s.header.Blank d) (b : UInt8) :
      Step w ⟨w.machine.poke (s.offset + d) b, w.ledger⟩
  /-- another context runs -/
  | switch (context : Context) : Step w ⟨{ w.machine with context := context }, w.ledger⟩
  /-- the platform has other frames to give -/
  | supply (frames : List Nat) :
      Step w ⟨{ w.machine with platform := { w.machine.platform with frames := frames } }, w.ledger⟩

/-- The worlds that well-behaved clients lead to. -/
inductive Reachable : World → Prop
  | start {bare m : Machine} (hbare : bare.Bare) (hrun : Machine.install bare = .ok () m) :
      Reachable ⟨m, []⟩
  | step {w w' : World} (h : Reachable w) (hs : w.Step w') : Reachable w'

end World

/-! ## The blocks behind what clients hold -/

/-- The block a pointer was handed out for. -/
def Grant.Owns (base : Nat) (g : Grant) (x : Nat × Block) : Prop :=
  match g.layout with
  | none => g.address = base + x.1 + headerSize
  | some l => ¬ l.Plain ∧ Behind base l g.address x.1 x.2

/-- Pointers and blocks belong together one by one. -/
def Matches (base : Nat) (ledger : List Grant) (xs : List (Nat × Block)) : Prop :=
  ∃ zs : List (Grant × (Nat × Block)), (zs.map Prod.fst).Perm ledger ∧ (zs.map Prod.snd).Perm xs ∧
    ∀ z ∈ zs, z.1.Owns base z.2

section Matches

variable {base : Nat} {ledger : List Grant} {g : Grant} {x : Nat × Block}
  {xs ys : List (Nat × Block)}

theorem matches_nil (base : Nat) : Matches base [] [] :=
  ⟨[], List.Perm.refl _, List.Perm.refl _, fun _ h => nomatch h⟩

theorem Matches.perm (h : Matches base ledger xs) (hp : xs.Perm ys) : Matches base ledger ys := by
  obtain ⟨zs, hl, hx, ho⟩ := h
  exact ⟨zs, hl, hx.trans hp, ho⟩

theorem Matches.perm_ledger {ledger' : List Grant} (h : Matches base ledger xs)
    (hp : ledger.Perm ledger') : Matches base ledger' xs := by
  obtain ⟨zs, hl, hx, ho⟩ := h
  exact ⟨zs, hl.trans hp, hx, ho⟩

theorem Matches.cons (h : Matches base ledger xs) (hg : g.Owns base x) :
    Matches base (g :: ledger) (x :: xs) := by
  obtain ⟨zs, hl, hx, ho⟩ := h
  refine ⟨(g, x) :: zs, hl.cons g, hx.cons x, ?_⟩
  intro z hz
  rcases List.mem_cons.mp hz with rfl | hz
  · exact hg
  · exact ho z hz

/-- A pointer that is held has a block of its own. -/
theorem Matches.pick (h : Matches base ledger xs) (hg : g ∈ ledger) :
    ∃ x rest, g.Owns base x ∧ (x :: rest).Perm xs ∧ Matches base (ledger.erase g) rest := by
  obtain ⟨zs, hl, hx, ho⟩ := h
  obtain ⟨z, hz, rfl⟩ := List.mem_map.mp (hl.mem_iff.mpr hg)
  obtain ⟨front, back, rfl⟩ := List.append_of_mem hz
  have hmiddle : (front ++ z :: back).Perm (z :: (front ++ back)) := List.perm_middle
  refine ⟨z.2, (front ++ back).map Prod.snd, ho z hz, (hmiddle.map Prod.snd).symm.trans hx,
    front ++ back, ?_, List.Perm.refl _, fun y hy => ho y (hmiddle.symm.subset ?_)⟩
  · have hcons : (z.1 :: (front ++ back).map Prod.fst).Perm ledger :=
      (hmiddle.map Prod.fst).symm.trans hl
    exact (hcons.trans (List.perm_cons_erase hg)).cons_inv
  · exact List.mem_cons_of_mem z hy

end Matches

namespace Grant

variable {base : Nat} {g : Grant} {x : Nat × Block}

/-- A pointer lies in the payload of its block. -/
theorem Owns.lies (h : g.Owns base x) :
    base + x.1 + headerSize ≤ g.address ∧ g.address ≤ base + x.1 + headerSize + x.2.size := by
  unfold Owns at h
  cases hl : g.layout with
  | none =>
    simp only [hl] at h
    omega
  | some l =>
    simp only [hl] at h
    have h1 := h.2.slot_le
    have h2 := h.2.stop_le
    omega

theorem Owns.address_ne_zero (h : g.Owns base x) : g.address ≠ 0 := by
  have := h.lies.1
  simp only [headerSize] at this
  omega

end Grant

theorem Matches.erase_null {base : Nat} {ledger : List Grant} {xs : List (Nat × Block)}
    (h : Matches base ledger xs) : ledger.erase ⟨0, none⟩ = ledger := by
  apply List.erase_of_not_mem
  intro hg
  obtain ⟨x, rest, ho, -⟩ := h.pick hg
  exact ho.address_ne_zero rfl

/-! ## What a call does to the ledger -/

/-- Blocks went and came as the ledger says.  Those that went are the one in which a
pointer lies, and some came only if the call lends them. -/
def Transfers (site : CallSite) (pointer : Option Nat) (lends : Prop) (ledger : List Grant)
    (bs : List Block) (m n : Machine) : Prop :=
  ∃ gone new rest bs', Machine.Performed site gone new bs bs' m n ∧
    (gone ++ rest).Perm (live 0 bs) ∧ Matches m.arena.window.base ledger (new ++ rest) ∧
    (∀ x ∈ gone, ∃ p ∈ pointer, m.arena.window.base + x.1 + headerSize ≤ p ∧
      p ≤ m.arena.window.base + x.1 + headerSize + x.2.size) ∧ (new = [] ∨ lends)

namespace Machine

section Transfers

variable {m n : Machine} {site : CallSite} {bs bs' : List Block} {ledger : List Grant}
  {g : Grant} {x : Nat × Block} {rest : List (Nat × Block)} {pointer : Option Nat} {lends : Prop}

theorem transfers_refl (hs : m.arena.Sound m.platform bs)
    (hm : Matches m.arena.window.base ledger (live 0 bs)) (journal : Array LogLine) :
    Transfers site pointer lends ledger bs m { m with journal := journal } :=
  ⟨[], [], live 0 bs, bs, Performed.refl hs journal, List.Perm.refl _, hm,
    fun _ hx => (nomatch hx), Or.inl rfl⟩

theorem transfers_gain (hm : Matches m.arena.window.base ledger (live 0 bs))
    (h : Performed site [] [x] bs bs' m n) (hg : g.Owns m.arena.window.base x) :
    Transfers site pointer True (gain g ledger) bs m n := by
  refine ⟨[], [x], live 0 bs, bs', h, List.Perm.refl _, ?_, fun _ hx => (nomatch hx),
    Or.inr trivial⟩
  unfold gain
  rw [if_neg hg.address_ne_zero]
  exact hm.cons hg

theorem transfers_lose (hg : g.Owns m.arena.window.base x) (hx : (x :: rest).Perm (live 0 bs))
    (hm : Matches m.arena.window.base (ledger.erase g) rest)
    (h : Performed site [x] [] bs bs' m n) :
    Transfers site (some g.address) lends (ledger.erase g) bs m n := by
  refine ⟨[x], [], rest, bs', h, hx, hm, fun y hy => ⟨g.address, rfl, ?_⟩, Or.inl rfl⟩
  rw [List.mem_singleton] at hy
  rw [hy]
  exact hg.lies

/-- The block of a pointer went and another came for it. -/
theorem transfers_swap {g' : Grant} {y : Nat × Block} (hg : g.Owns m.arena.window.base x)
    (hx : (x :: rest).Perm (live 0 bs)) (hm : Matches m.arena.window.base (ledger.erase g) rest)
    (h : Performed site [x] [y] bs bs' m n) (hg' : g'.Owns m.arena.window.base y) :
    Transfers site (some g.address) True (gain g' (ledger.erase g)) bs m n := by
  refine ⟨[x], [y], rest, bs', h, hx, ?_, fun z hz => ⟨g.address, rfl, ?_⟩, Or.inr trivial⟩
  · unfold gain
    rw [if_neg hg'.address_ne_zero]
    exact hm.cons hg'
  · rw [List.mem_singleton] at hz
    rw [hz]
    exact hg.lies

/-- A held pointer to a payload is the address of a live block. -/
theorem exists_owned {address : Nat} (hs : m.Served bs)
    (hm : Matches m.arena.window.base ledger (live 0 bs)) (hg : ⟨address, none⟩ ∈ ledger) :
    ∃ off b rest, (off, b) ∈ live 0 bs ∧ address = m.arena.payload off ∧
      Grant.Owns m.arena.window.base ⟨address, none⟩ (off, b) ∧
      ((off, b) :: rest).Perm (live 0 bs) ∧
      Matches m.arena.window.base (ledger.erase ⟨address, none⟩) rest := by
  obtain ⟨⟨off, b⟩, rest, ho, hperm, hrest⟩ := hm.pick hg
  have hb : (off, b) ∈ live 0 bs := hperm.subset (List.mem_cons_self)
  refine ⟨off, b, rest, hb, ?_, ho, hperm, hrest⟩
  rw [(hs.payload_eq hb).1]
  exact ho

theorem owns_payload {gone : List (Nat × Block)} {off : Nat} {b : Block} (hs : m.Served bs)
    (h : Performed site gone [(off, b)] bs bs' m n) (hrest : (gone ++ rest).Perm (live 0 bs)) :
    Grant.Owns m.arena.window.base ⟨m.arena.payload off, none⟩ (off, b) := by
  have hb : (off, b) ∈ live 0 bs' := (h.perm_rest hrest).subset (List.mem_cons_self)
  show m.arena.payload off = _
  rw [payload_of_around h.around, ((h.served hs).payload_eq hb).1, h.around.window_eq]

/-- What comes when memory for a layout is given out: a block of its own, with clear room
for the layout at the address. -/
inductive Lent (l : Layout) (base : Nat) : Nat → List (Nat × Block) → List (Nat × Block) → Prop
  | intro {address off : Nat} {b : Block} (howns : (l.grant address).Owns base (off, b))
      (hmod : address % l.align = 0)
      (hstop : address + l.size ≤ base + off + headerSize + b.size)
      (hclear : ∀ i, i < l.size → b.bytes (address - (base + off + headerSize) + i) = 0) :
      Lent l base address [] [(off, b)]

/-- Giving out memory for a layout. -/
theorem ends_lend (hs : m.Served bs) (hi : m.installed = true) (l : Layout) (site : CallSite) :
    Ends (Exchanges site (Lent l m.arena.window.base) bs m) (m.Reported bs)
      (allocateLayout .none l site m) := by
  have htidy := hs.sound.orderly.toTidy
  by_cases hl : l.Plain
  · unfold allocateLayout
    rw [run_bind_ok (run_requireInstalled hi), if_pos hl]
    refine (ends_allocate hs l.size site).mono ?_ fun _ _ hn => hn
    rintro p n ⟨gone, new, bs', @⟨pre, post, c, -, hf⟩, h⟩
    have howns := owns_payload hs h (List.Perm.refl _)
    have haddress : m.arena.payload (span pre) = m.arena.window.base + span pre + headerSize :=
      howns
    have hroom : l.size ≤ (m.newBlock (requestSize l.size) site c).size :=
      Nat.le_trans (Nat.le_trans (Word.le_roundUp _) (Nat.le_max_left _ _))
        (Block.le_size_taken hf.le_size)
    refine ⟨_, _, bs', .intro ?_ ?_ (haddress ▸ Nat.add_le_add_left hroom _) ?_, h⟩
    · unfold Layout.grant
      rw [if_pos hl]
      exact howns
    · have hmem := (h.perm_rest (List.Perm.refl _)).subset List.mem_cons_self
      have hgranule := (h.served hs).payload_aligned hmem
      rw [payload_of_around h.around]
      exact Nat.mod_eq_zero_of_dvd
        (Nat.dvd_trans hl.align_dvd (Nat.dvd_of_mod_eq_zero hgranule))
    · intro i hi
      rw [haddress, Nat.sub_self, Nat.zero_add]
      exact clear_newBlock m site hf htidy (Nat.lt_of_lt_of_le hi hroom)
  · refine (ends_allocateLayout hs hi hl site).mono ?_ fun _ _ hn => hn
    rintro p n ⟨gone, new, bs', @⟨pre, post, c, d, _, ho, hf, rfl, hbehind⟩, h⟩
    have howns := owns_payload hs h (List.Perm.refl _)
    have hpayload : m.arena.payload (span pre) = m.arena.window.base + span pre + headerSize :=
      howns
    have hslot := hbehind.slot_le
    have hstop := hbehind.stop_le
    refine ⟨_, _, bs', .intro ?_ hbehind.aligned hstop ?_, h⟩
    · unfold Layout.grant
      rw [if_neg hl]
      exact ⟨hl, hbehind⟩
    · intro i hi
      refine Eq.trans (if_neg (by omega)) (clear_newBlock m site hf htidy ?_)
      change p + l.size ≤ _ + (m.newBlock (requestSize l.paddedSize) site c).size at hstop
      omega

/-- Taking back memory of a layout takes back the block that its pointer owns. -/
theorem ends_giveBack {off : Nat} {b : Block} {address : Nat} {l : Layout} (hs : m.Served bs)
    (hi : m.installed = true) (hb : (off, b) ∈ live 0 bs)
    (ho : (l.grant address).Owns m.arena.window.base (off, b)) (site : CallSite) :
    Ends (Exchanges site (Freed off b) bs m) (m.TurnedAway bs site)
      (freeLayout .none address l site m) := by
  unfold Layout.grant at ho
  by_cases hl : l.Plain
  · rw [if_pos hl] at ho
    have haddress : address = m.arena.payload off := ho.trans (hs.payload_eq hb).1.symm
    unfold freeLayout
    rw [run_bind_ok (run_requireInstalled hi), run_bind_ok (run_get m), if_pos hl, haddress]
    exact Ends.bind (ends_free hs hb site) fun _ _ hn => hn
  · rw [if_neg hl] at ho
    exact ends_freeLayout hs hi hl hb ho.2 site

/-! ## The operations -/

variable (hs : m.Served bs) (hm : Matches m.arena.window.base ledger (live 0 bs))

include hs hm

theorem transfers_allocate (size : Nat) (site : CallSite) :
    Ends (fun p n => Transfers site pointer True (gain ⟨p, none⟩ ledger) bs m n) (m.Reported bs)
      (allocate .none size site m) := by
  refine (ends_allocate hs size site).mono ?_ fun _ _ hn => hn
  rintro p n ⟨gone, new, bs', ⟨-, hf⟩, h⟩
  exact transfers_gain hm h (owns_payload hs h (List.Perm.refl _))

theorem transfers_free {address : Nat} (hp : MayPass ledger ⟨address, none⟩) (site : CallSite) :
    Ends (fun _ n => Transfers site (some address) False (ledger.erase ⟨address, none⟩) bs m n)
      (m.TurnedAway bs site) (free .none address site m) := by
  rcases hp with ⟨hnull, -⟩ | hg
  · have hnull : address = 0 := hnull
    rw [hnull, run_free_null, hm.erase_null]
    exact transfers_refl hs.sound hm m.journal
  · obtain ⟨off, b, rest, hb, haddress, ho, hperm, hrest⟩ := exists_owned hs hm hg
    have hfree := ends_free hs hb site
    rw [← haddress] at hfree
    refine hfree.mono ?_ fun _ _ hn => hn
    rintro r n ⟨gone, new, bs', ⟨rfl, rfl⟩, h⟩
    exact transfers_lose ho hperm hrest h

theorem transfers_reallocate {address : Nat} (hp : MayPass ledger ⟨address, none⟩) (size : Nat)
    (site : CallSite) :
    Ends
      (fun p n =>
        Transfers site (some address) True (gain ⟨p, none⟩ (ledger.erase ⟨address, none⟩)) bs m n)
      (m.Reported bs) (reallocate .none address size site m) := by
  rcases hp with ⟨hnull, -⟩ | hg
  · have hnull : address = 0 := hnull
    rw [hnull, hm.erase_null]
    refine (ends_reallocate_null hs size site).mono ?_ fun _ _ hn => hn
    rintro p n ⟨gone, new, bs', hR, h⟩
    by_cases hz : size = 0
    · rw [if_pos hz] at hR
      obtain ⟨rfl, rfl, rfl⟩ := hR
      exact ⟨[], [], live 0 bs, bs', h, List.Perm.refl _, hm, fun _ hx => (nomatch hx),
        Or.inl rfl⟩
    · rw [if_neg hz] at hR
      obtain ⟨-, hf⟩ := hR
      exact transfers_gain hm h (owns_payload hs h (List.Perm.refl _))
  · obtain ⟨off, b, rest, hb, haddress, ho, hperm, hrest⟩ := exists_owned hs hm hg
    by_cases hz : size = 0
    · subst hz
      have hfree := ends_reallocate_zero hs hb site
      rw [← haddress] at hfree
      refine hfree.mono ?_ fun _ _ hn => hn
      rintro p n ⟨gone, new, bs', ⟨rfl, rfl, rfl⟩, h⟩
      exact transfers_lose ho hperm hrest h
    · have hresize := ends_reallocate hs hb (Nat.pos_of_ne_zero hz) site
      rw [← haddress] at hresize
      refine hresize.mono ?_ fun _ _ hn => hn
      rintro p n ⟨gone, new, bs', hR, h⟩
      cases hR with
      | cut hle => exact transfers_swap ho hperm hrest h (owns_payload hs h hperm)
      | grown hlt hrow hoff hy hfits hmax =>
        exact transfers_swap ho hperm hrest h (owns_payload hs h hperm)
      | moved hlt hrow hoff hnone hf hmax room =>
        exact transfers_swap ho hperm hrest h (owns_payload hs h hperm)

theorem transfers_allocateLayout (hi : m.installed = true) (l : Layout) (site : CallSite) :
    Ends (fun p n => Transfers site pointer True (gain (l.grant p) ledger) bs m n) (m.Reported bs)
      (allocateLayout .none l site m) := by
  refine (ends_lend hs hi l site).mono ?_ fun _ _ hn => hn
  rintro p n ⟨gone, new, bs', ⟨howns, -, -, -⟩, h⟩
  exact transfers_gain hm h howns

theorem transfers_freeLayout (hi : m.installed = true) {l : Layout} {address : Nat}
    (hp : MayPass ledger (l.grant address)) (site : CallSite) :
    Ends (fun _ n => Transfers site (some address) False (ledger.erase (l.grant address)) bs m n)
      (m.TurnedAway bs site) (freeLayout .none address l site m) := by
  obtain ⟨hnull, hplain⟩ | hg := hp
  · have hl : l.Plain := by
      by_contra hl
      rw [Layout.grant, if_neg hl] at hplain
      cases hplain
    have hp : MayPass ledger ⟨address, none⟩ := Or.inl ⟨hnull, rfl⟩
    unfold Layout.grant freeLayout
    rw [if_pos hl, run_bind_ok (run_requireInstalled hi), run_bind_ok (run_get m), if_pos hl]
    exact Ends.bind (transfers_free hs hm hp site) fun _ _ hn => hn
  · obtain ⟨⟨off, b⟩, rest, ho, hperm, hrest⟩ := hm.pick hg
    have hb : (off, b) ∈ live 0 bs := hperm.subset (List.mem_cons_self)
    refine (ends_giveBack hs hi hb ho site).mono ?_ fun _ _ hn => hn
    rintro r n ⟨gone, new, bs', ⟨rfl, rfl⟩, h⟩
    exact transfers_lose ho hperm hrest h

theorem transfers_reallocateLayout (hi : m.installed = true) {l : Layout} {address : Nat}
    (hp : MayPass ledger (l.grant address)) (newSize : Nat) (site : CallSite) :
    Ends (fun p n => Transfers site (some address) True
        ((Call.reallocateLayout address l newSize).settle ledger (.pointer p)) bs m n)
      (m.Reported bs) (reallocateLayout .none address l newSize site m) := by
  unfold Layout.grant at hp
  unfold Call.settle
  dsimp only
  by_cases hl : l.Plain
  · rw [if_pos hl] at hp
    unfold reallocateLayout
    rw [if_pos hl, run_bind_ok (run_requireInstalled hi)]
    simp only [if_pos hl]
    exact transfers_reallocate hs hm hp newSize site
  · rw [if_neg hl] at hp
    simp only [if_neg hl]
    obtain ⟨-, hnone⟩ | hg := hp
    · cases hnone
    · obtain ⟨⟨off, b⟩, rest, ho, hperm, hrest⟩ := hm.pick hg
      have hb : (off, b) ∈ live 0 bs := hperm.subset (List.mem_cons_self)
      refine (ends_reallocateLayout hs hi hl hb ho.2 newSize site).mono ?_ fun _ _ hn => hn
      rintro p n ⟨gone, new, bs', hR, h⟩
      cases hR with
      | refused hnone =>
        rw [hnone]
        exact ⟨[], [], live 0 bs, bs', h, List.Perm.refl _, hm, fun _ hx => (nomatch hx),
        Or.inl rfl⟩
      | @moved newLayout _ off' d hsome hother hbehind hcopy =>
        obtain ⟨-, halign⟩ := Layout.ofSizeAlign?_eq_some hsome
        have hl' : ¬ newLayout.Plain := by
          unfold Layout.Plain
          rwa [halign]
        rw [hsome]
        unfold Layout.grant
        simp only [if_neg hl, if_neg hl']
        exact transfers_swap ho hperm hrest h ⟨hl', hbehind⟩

end Transfers

theorem quiet_topAddress {m : Machine} (hl : m.lock = .unlocked) (site : CallSite) :
    m.Quiet (topAddress site m) := by
  unfold topAddress
  refine Ends.bind (quiet_stats hl site) ?_
  rintro t n ⟨j, rfl⟩
  rw [run_bind_ok (run_get _)]
  cases Word.add t.heapSize m.arena.window.base with
  | error e => exact ⟨j, rfl⟩
  | ok address => exact ⟨j, rfl⟩

theorem ends_install {m : Machine} (hi : m.installed = true) :
    Ends (fun _ _ => False) (fun _ n => ∃ j, n = { m with journal := j }) (install m) := by
  unfold install
  rw [run_bind_ok (run_get m)]
  dsimp only
  rw [if_pos hi, run_bind_ok (run_log _ m)]
  exact ⟨_, rfl⟩

end Machine

/-! ## One call -/

/-- The state between calls: the heap is sound, and its live blocks are those behind
the pointers of the ledger. -/
structure World.Held (w : World) (bs : List Block) : Prop where
  served : w.machine.Served bs
  installed_eq : w.machine.installed = true
  owned : Matches w.machine.arena.window.base w.ledger (live 0 bs)

/-- A call leaves a state between calls over the same window, and no live block it
does not name has changed.  What headers remember is credited to it, and blocks came
only if it lends them. -/
def Call.Leaves (c : Call) (site : CallSite) (w : World) (bs : List Block) (reply : Reply)
    (n : Machine) : Prop :=
  ∃ bs', World.Held ⟨n, c.settle w.ledger reply⟩ bs' ∧
    n.arena.window = w.machine.arena.window ∧
    (∀ x ∈ live 0 bs, ¬ c.Names w.machine.arena.window x.1 x.2.size → x ∈ live 0 bs') ∧
    Credited (w.machine.stamp site) site bs bs' ∧ ∀ y ∈ live 0 bs', y ∈ live 0 bs ∨ c.Lends

section Calls

open Machine

variable {w : World} {bs : List Block} {c : Call} {site : CallSite}

theorem leaves_same {reply : Reply} {n : Machine}
    (h : World.Held ⟨n, c.settle w.ledger reply⟩ bs)
    (hwindow : n.arena.window = w.machine.arena.window) : c.Leaves site w bs reply n :=
  ⟨bs, h, hwindow, fun _ hx _ => hx, (Unaltered.refl bs).credited, fun _ hy => Or.inl hy⟩

/-- Blocks that changed hands as the ledger says leave a state between calls. -/
theorem Transfers.leaves {reply : Reply} {n : Machine}
    (ht : Transfers site c.pointer c.Lends (c.settle w.ledger reply) bs w.machine n)
    (h : w.Held bs) : c.Leaves site w bs reply n := by
  obtain ⟨gone, new, rest, bs', hex, hrest, hm, hlies, hlends⟩ := ht
  have hwindow := hex.around.window_eq
  refine ⟨bs', ⟨hex.served h.served, hex.around.installed_eq.trans h.installed_eq, ?_⟩, hwindow,
    fun x hx hn => hex.mem_live hx fun hg => hn (hlies x hg), hex.credited, ?_⟩
  · show Matches n.arena.window.base _ _
    rw [hwindow]
    exact hm.perm (hex.perm_rest hrest)
  · intro y hy
    rcases hlends with rfl | hlends
    · exact Or.inl (hex.perm.subset (List.mem_append_right _ hy))
    · exact Or.inr hlends

/-- Calls under which blocks change hands leave a state between calls. -/
theorem ends_transfer {α : Type} {x : HeapM α} {E : Fault → Machine → Prop} (c : Call)
    (h : w.Held bs) (reply : α → Reply)
    (ht : Ends
      (fun r n => Transfers site c.pointer c.Lends (c.settle w.ledger (reply r)) bs w.machine n) E
      (x w.machine))
    (hE : ∀ e n, E e n → w.machine.Stalled bs n) :
    Ends (fun r n => c.Leaves site w bs (reply r) n) (fun _ => w.machine.Stalled bs)
      (x w.machine) :=
  ht.mono (fun _ _ hn => hn.leaves h) hE

/-- So do calls that only write to the journal. -/
theorem ends_quiet {α : Type} {x : HeapM α} (h : w.Held bs) (hq : w.machine.Quiet (x w.machine))
    (reply : α → Reply) (hsettle : ∀ r, c.settle w.ledger (reply r) = w.ledger) :
    Ends (fun r n => c.Leaves site w bs (reply r) n) (fun _ => w.machine.Stalled bs)
      (x w.machine) := by
  refine hq.mono ?_ ?_
  · rintro r n ⟨j, rfl⟩
    refine Transfers.leaves ?_ h
    rw [hsettle]
    exact transfers_refl h.served.sound h.owned j
  · rintro e n ⟨j, rfl⟩
    exact (Stalled.refl h.served.sound.lists).log j

/-- Every permitted call returns to a state between calls or is refused, and either
way the live blocks it does not name stay as they are. -/
theorem ends_call (h : w.Held bs) (hp : c.Permitted w.ledger) (site : CallSite) :
    Ends (c.Leaves site w bs) (fun _ => w.machine.Stalled bs) (c.run .none site w.machine) := by
  have hs := h.served
  have hm := h.owned
  have hi := h.installed_eq
  have hl := hs.lock_eq
  cases c with
  | allocate size =>
    exact Ends.bind (ends_transfer (.allocate size) h .pointer (transfers_allocate hs hm size site)
      fun _ _ hn => hn.2) fun _ _ hn => hn
  | free address =>
    exact Ends.bind (ends_transfer (.free address) h .flag (transfers_free hs hm hp site)
      fun _ _ hn => hn.2.2) fun _ _ hn => hn
  | reallocate address size =>
    exact Ends.bind (ends_transfer (.reallocate address size) h .pointer
      (transfers_reallocate hs hm hp size site) fun _ _ hn => hn.2) fun _ _ hn => hn
  | usedBytes details =>
    exact Ends.bind (ends_quiet h (quiet_usedBytes hl details site) .count fun _ => rfl)
      fun r n hn => hn
  | stats =>
    exact Ends.bind (ends_quiet h (quiet_stats hl site) .totals fun _ => rfl) fun r n hn => hn
  | audit =>
    exact Ends.bind (ends_quiet (c := .audit) h (quiet_audit hl site) (fun _ => .done)
      fun _ => rfl) fun r n hn => hn
  | top =>
    exact Ends.bind (ends_quiet h (quiet_topAddress hl site) .address fun _ => rfl)
      fun r n hn => hn
  | setTracing on =>
    have hheld : World.Held ⟨{ w.machine with tracing := on }, w.ledger⟩ bs :=
      ⟨⟨hs.sound, hl, hs.filled⟩, hi, hm⟩
    exact leaves_same hheld rfl
  | isTracing => exact leaves_same h rfl
  | lockHolder => exact leaves_same h rfl
  | describe => exact leaves_same h rfl
  | isInstalled => exact leaves_same h rfl
  | install =>
    refine Ends.bind ((ends_install hi).mono (fun _ _ hn => hn) ?_) fun _ _ hn => hn.elim
    rintro e n ⟨j, rfl⟩
    exact (Stalled.refl hs.sound.lists).log j
  | allocateLayout l =>
    exact Ends.bind (ends_transfer (.allocateLayout l) h .pointer
      (transfers_allocateLayout hs hm hi l site) fun _ _ hn => hn.2) fun _ _ hn => hn
  | freeLayout address l =>
    exact Ends.bind (ends_transfer (.freeLayout address l) h (fun _ => .done)
      (transfers_freeLayout hs hm hi hp site) fun _ _ hn => hn.2.2) fun _ _ hn => hn
  | reallocateLayout address l newSize =>
    exact Ends.bind (ends_transfer (.reallocateLayout address l newSize) h .pointer
      (transfers_reallocateLayout hs hm hi hp newSize site) fun _ _ hn => hn.2) fun _ _ hn => hn

end Calls

/-! ## Other steps -/

/-- The memory of a heap that was just installed, but for its first header, is clear. -/
theorem Machine.run_install {m : Machine} (hi : m.installed = false) :
    ∃ j, install m = .ok ()
      { m with
        arena := { m.arena with
          memory := Header.store (m.arena.memory.zero 0 m.arena.top) 0
            (Header.free none none (m.arena.top - headerSize)) }
        journal := j
        installed := true } := by
  unfold install
  rw [run_bind_ok (run_get m)]
  dsimp only
  rw [if_neg (by simp [hi]), run_bind_ok (run_claimWindow m)]
  exact ⟨_, rfl⟩

namespace World

open Machine

variable {w : World} {bs : List Block}

/-- A heap that was just installed is one free block. -/
theorem held_start {bare m : Machine} (hbare : bare.Bare) (hrun : install bare = .ok () m) :
    Held ⟨m, []⟩ [Block.fresh (bare.arena.window.floor - headerSize)] := by
  obtain ⟨j, hinstall⟩ := run_install hbare.installed_eq
  rw [hinstall] at hrun
  cases hrun
  have htop : bare.arena.top = bare.arena.window.floor := hbare.top_eq
  have hpage := bare.arena.window.pageSize_le_floor
  have hceiling := bare.arena.window.floor_le_ceiling
  have hfits := bare.arena.window.fits
  have hfloor := bare.arena.window.floor_aligned
  have hextent : (Block.fresh (bare.arena.window.floor - headerSize)).extent =
      bare.arena.window.floor := by
    unfold Block.extent Block.fresh
    simp only [headerSize, pageSize] at *
    omega
  have hspan : span [Block.fresh (bare.arena.window.floor - headerSize)] =
      bare.arena.window.floor := hextent
  have hstore : (Header.free none none (bare.arena.top - headerSize)).Storable := by
    refine ⟨?_, fun _ hp => (nomatch hp), fun _ hp => (nomatch hp)⟩
    show bare.arena.top - headerSize < 2 ^ 64
    omega
  refine ⟨⟨⟨⟨?_, ?_, ?_, ?_, ?_⟩, hbare.backed _, ⟨⟨?_, ?_⟩, ?_⟩⟩, hbare.lock_eq, ?_⟩, rfl,
    matches_nil _⟩
  · refine tiled_cons.mpr ⟨⟨?_, ?_⟩, trivial⟩
    · have hheads := heads_store (bare.arena.memory.zero 0 bare.arena.top) 0 hstore
      rwa [htop] at hheads ⊢
    · intro i hi
      have hi : i < bare.arena.window.floor - headerSize := hi
      show (Header.store _ 0 _).get _ = 0
      rw [Header.get_store_of_outside _ (Or.inr (by omega)), Memory.get_zero, if_pos (by omega)]
  · exact htop.trans hspan.symm
  · show some 0 = some bare.arena.last
    rw [hbare.last_eq]
  · intro b hb
    rw [List.mem_singleton] at hb
    rw [hb]
    show (bare.arena.window.floor - headerSize) % granule = 0
    simp only [headerSize, granule, pageSize] at *
    omega
  · exact Nat.le_trans (Nat.le_of_eq htop) hceiling
  · exact List.isChain_singleton _
  · intro b hb
    rw [List.mem_singleton] at hb
    rw [hb]
    exact fun _ _ _ => rfl
  · intro pre b hb _
    obtain rfl : pre = [] := by
      cases pre with
      | nil => rfl
      | cons x xs => simp at hb
    rw [hspan]
    refine ⟨bare.arena.window.floor_pos, ?_⟩
    show _ = max bare.arena.window.floor (0 + headerSize)
    simp only [headerSize, pageSize] at *
    omega
  · exact fun x hx => nomatch hx

/-- What a client may write to is payload of the block behind its pointer, beside the
slot. -/
theorem covers_lies {m : Machine} {g : Grant} {off place : Nat} {b : Block} (hs : m.Served bs)
    (hb : (place, b) ∈ live 0 bs) (ho : g.Owns m.arena.window.base (place, b))
    (hc : g.Covers m.arena off) :
    place + headerSize ≤ off ∧ off < place + headerSize + b.size ∧
      ∀ byte, g.Owns m.arena.window.base
        (place, b.overlaid (off - (place + headerSize)) 1 fun _ => byte) := by
  obtain ⟨⟨prev, next, hstands⟩, -⟩ := hs.stands hb
  obtain ⟨hlow, hhigh⟩ := hc
  unfold Grant.Owns at ho ⊢
  cases hl : g.layout with
  | none =>
    simp only [hl] at ho hhigh ⊢
    have hplace : g.address - m.arena.window.base = place + headerSize := by omega
    have hload := congrArg Header.size hstands.heads.load_eq
    have hsize : Header.sizeAt m.arena.memory place = b.size := hload
    rw [hplace, Nat.add_sub_cancel, hsize] at hhigh
    exact ⟨by omega, hhigh, fun _ => ho⟩
  | some l =>
    simp only [hl] at ho hhigh ⊢
    obtain ⟨hplain, hbehind⟩ := ho
    have h1 := hbehind.slot_le
    have h2 := hbehind.stop_le
    refine ⟨by omega, by omega, fun byte => ⟨hplain, h1, h2, hbehind.aligned, ?_⟩⟩
    intro i hi
    exact Eq.trans (if_neg (by omega)) (hbehind.slot i hi)

/-- A byte written into held memory changes the block behind it, and nothing that is
remembered. -/
theorem exchanged_poke {m : Machine} {g : Grant} {off place : Nat} {b : Block} (hs : m.Served bs)
    (hb : (place, b) ∈ live 0 bs) (ho : g.Owns m.arena.window.base (place, b))
    (hc : g.Covers m.arena off) (byte : UInt8) :
    ∃ bs', Exchanged [(place, b)]
      [(place, b.overlaid (off - (place + headerSize)) 1 fun _ => byte)] bs bs' m
      (m.poke off byte) ∧ Unaltered bs bs' := by
  obtain ⟨hlow, hhigh, -⟩ := covers_lies hs hb ho hc
  obtain ⟨⟨prev, next, hstands⟩, -⟩ := hs.stands hb
  have he : b.extent = headerSize + b.size := rfl
  refine exchanged_overwrite hs hb (m.arena.memory.set off byte) _ ?_ ?_
  · intro i hi
    rw [Memory.get_set, hstands.payload i hi]
    by_cases hin : place + headerSize + i = off
    · rw [if_pos hin, if_pos (by omega)]
    · rw [if_neg hin, if_neg (by omega)]
  · intro i hi
    rw [Memory.get_set, if_neg (by omega)]

/-- It stays the block of that pointer, no other block changes, and nothing that is
remembered does. -/
theorem Held.write (h : w.Held bs) {g : Grant} {off : Nat} (hg : g ∈ w.ledger)
    (hc : g.Covers w.machine.arena off) (byte : UInt8) :
    ∃ place b bs', g.Owns w.machine.arena.window.base (place, b) ∧ (place, b) ∈ live 0 bs ∧
      (place, b.overlaid (off - (place + headerSize)) 1 fun _ => byte) ∈ live 0 bs' ∧
      (∀ x ∈ live 0 bs, x ≠ (place, b) → x ∈ live 0 bs') ∧ Unaltered bs bs' ∧
      Held ⟨w.machine.poke off byte, w.ledger⟩ bs' := by
  obtain ⟨⟨place, b⟩, rest, ho, hperm, hrest⟩ := h.owned.pick hg
  have hb : (place, b) ∈ live 0 bs := hperm.subset (List.mem_cons_self)
  obtain ⟨-, -, howns⟩ := covers_lies h.served hb ho hc
  obtain ⟨bs', hwrite, hsame⟩ := exchanged_poke h.served hb ho hc byte
  have hperm' := hwrite.perm_rest hperm
  refine ⟨place, b, bs', ho, hb, hperm'.subset List.mem_cons_self, fun x hx hne =>
    hwrite.mem_live hx fun hmem => hne (List.mem_singleton.mp hmem), hsame,
    hwrite.served h.served, h.installed_eq, ?_⟩
  exact ((hrest.cons (howns byte)).perm hperm').perm_ledger (List.perm_cons_erase hg).symm

/-- Nothing of a heap depends on the bytes that have no value. -/
theorem Held.blank (h : w.Held bs) {s : Segment} {d : Nat}
    (hs : s ∈ w.machine.arena.walk.segments) (hd : s.header.Blank d) (byte : UInt8) :
    Held ⟨w.machine.poke (s.offset + d) byte, w.ledger⟩ bs := by
  have hl := h.served.sound.lists
  obtain ⟨pre, b, post, rfl, rfl⟩ := hl.mem_walk_iff.mp hs
  have hstop := hl.stop_le
  have hlt := hd.lt_headerSize
  have he : b.extent = headerSize + b.size := rfl
  have hin : w.machine.arena.Inside (w.machine.poke (span pre + d) byte).arena := by
    refine ⟨rfl, rfl, fun i hi => ?_⟩
    show (w.machine.arena.memory.set _ _).get i = _
    rw [Memory.get_set, if_neg (by omega)]
  have htiled := hl.tiled.set_blank (by rw [Nat.zero_add]; exact hd) byte
  rw [Nat.zero_add] at htiled
  exact ⟨⟨⟨⟨htiled, hl.top_eq, hl.last_eq, hl.aligned, hl.top_le⟩,
    h.served.sound.backed.inside hin, h.served.sound.orderly⟩, h.served.lock_eq,
    h.served.filled⟩, h.installed_eq, h.owned⟩

theorem Held.switch (h : w.Held bs) (context : Context) :
    Held ⟨{ w.machine with context := context }, w.ledger⟩ bs :=
  ⟨⟨h.served.sound, h.served.lock_eq, h.served.filled⟩, h.installed_eq, h.owned⟩

theorem Held.supply (h : w.Held bs) (frames : List Nat) :
    Held ⟨{ w.machine with platform := { w.machine.platform with frames := frames } }, w.ledger⟩
      bs := by
  have hbacked := h.served.sound.backed
  exact ⟨⟨⟨h.served.sound.lists, ⟨hbacked.floor_le, hbacked.le_ceiling, hbacked.maps,
    hbacked.slack⟩, h.served.sound.orderly⟩, h.served.lock_eq, h.served.filled⟩, h.installed_eq,
    h.owned⟩

/-! ## Runs -/

/-- Every step leads from one state between calls to the next. -/
theorem Held.step (h : w.Held bs) {w' : World} (hstep : w.Step w') : ∃ bs', w'.Held bs' := by
  cases hstep with
  | @call c site reply m permitted run =>
    have hcall := ends_call h permitted site
    rw [run] at hcall
    obtain ⟨bs', hheld, -⟩ := hcall
    exact ⟨bs', hheld⟩
  | write held covered b =>
    obtain ⟨-, -, bs', -, -, -, -, -, hheld⟩ := h.write held covered b
    exact ⟨bs', hheld⟩
  | blank stands unset b => exact ⟨bs, h.blank stands unset b⟩
  | switch context => exact ⟨bs, h.switch context⟩
  | supply frames => exact ⟨bs, h.supply frames⟩

/-- Every reachable world is in a state between calls. -/
theorem Reachable.held (h : w.Reachable) : ∃ bs, w.Held bs := by
  induction h with
  | start hbare hrun => exact ⟨_, held_start hbare hrun⟩
  | step _ hs ih =>
    obtain ⟨bs, hheld⟩ := ih
    exact hheld.step hs

/-- Eight bytes times eight, aligned to 256. -/
def smallLayout : Layout := ⟨64, 256, by decide, by decide⟩

/-- A new heap over a small window. -/
def smallNew : World := ⟨after install smallBare, []⟩

/-- The small heap with one block. -/
def smallHeap : Machine := after (allocate .none 100 ⟨1⟩) smallNew.machine

def smallBlock : World := ⟨smallHeap, [⟨0x10000040, none⟩]⟩

/-- The small heap with memory of a large alignment beside the block. -/
def smallWorld : World :=
  ⟨after (allocateLayout .none smallLayout ⟨2⟩) smallHeap,
    [smallLayout.grant 0x10000100, ⟨0x10000040, none⟩]⟩

theorem reachable_smallNew : smallNew.Reachable :=
  .start (bare_boot smallWindow 2 _ false 0xaa)
    (run_of_returns (r := ()) (by decide +kernel))

theorem reachable_smallBlock : smallBlock.Reachable := by
  have hblock : allocate .none 100 ⟨1⟩ smallNew.machine = .ok 0x10000040 smallHeap :=
    run_of_returns (by decide +kernel)
  have hstep := @Step.call smallNew (.allocate 100) ⟨1⟩ _ _ trivial (run_bind_ok hblock)
  exact reachable_smallNew.step hstep

theorem run_smallLayout :
    allocateLayout .none smallLayout ⟨2⟩ smallBlock.machine = .ok 0x10000100 smallWorld.machine :=
  run_of_returns (by decide +kernel)

theorem reachable_smallWorld : smallWorld.Reachable := by
  have hstep := @Step.call smallBlock (.allocateLayout smallLayout) ⟨2⟩ _ _ trivial
    (run_bind_ok run_smallLayout)
  exact reachable_smallBlock.step hstep

end World

end GuardedHeap
