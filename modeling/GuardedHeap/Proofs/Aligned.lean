/-
  Proofs/Aligned.lean --- blocks behind payloads of large alignment.

  WHAT THIS FILE IS FOR.  Memory of a large alignment lies somewhere inside the
  payload of a block that has room for it, and the eight bytes in front of it lead
  back to that block.  As long as these bytes stand, the pointer frees its block.

  WHAT IS PROVED.  Giving out such memory makes one block with room and with the
  way back; taking it back takes that block; moving it copies the bytes in
  between.  None of the steps after the block was found can fail.
-/
import GuardedHeap.Layout
import GuardedHeap.Proofs.Calls

set_option autoImplicit false

namespace GuardedHeap

/-! ## Sizes -/

namespace Layout

theorem align_pos (l : Layout) : 0 < l.align := by
  rw [l.align_power]
  exact Nat.two_pow_pos _

theorem Plain.align_dvd {l : Layout} (h : l.Plain) : l.align ∣ granule := by
  have hpow : 2 ^ l.align.log2 ≤ 2 ^ 4 := l.align_power ▸ h
  rw [l.align_power]
  exact Nat.pow_dvd_pow 2 ((Nat.pow_le_pow_iff_right (by decide)).mp hpow)

theorem paddedSize_eq (l : Layout) : l.paddedSize = l.size + (l.align - 1) + slotSize := by
  have := l.fits
  unfold paddedSize Word.saturatingAdd Word.largest
  simp only [slotSize]
  omega

/-- The layout that was found has the size and the alignment that were asked for. -/
theorem ofSizeAlign?_eq_some {size align : Nat} {l : Layout}
    (h : ofSizeAlign? size align = some l) : l.size = size ∧ l.align = align := by
  unfold ofSizeAlign? at h
  split at h
  · cases h
    exact ⟨rfl, rfl⟩
  · cases h

end Layout

/-! ## A place behind a slot -/

/-- Memory for a layout lies at an address inside the payload of a block, and the
slot in front of it leads back to that block. -/
structure Behind (base : Nat) (l : Layout) (address off : Nat) (b : Block) : Prop where
  slot_le : base + off + headerSize + Layout.slotSize ≤ address
  stop_le : address + l.size ≤ base + off + headerSize + b.size
  aligned : address % l.align = 0
  slot : ∀ i, i < Layout.slotSize →
    b.bytes (address - Layout.slotSize - (base + off + headerSize) + i) =
      Memory.byteOf (base + off + headerSize) i

/-- A block with `len` bytes from an index on replaced by those of `f`. -/
def Block.overlaid (b : Block) (start len : Nat) (f : Nat → UInt8) : Block :=
  { b with bytes := fun i => if start ≤ i ∧ i < start + len then f (i - start) else b.bytes i }

/-- A block with the way back to it in front of an address. -/
def Block.slotted (payload address : Nat) (b : Block) : Block :=
  b.overlaid (address - Layout.slotSize - payload) Layout.slotSize (Memory.byteOf payload)

/-- In a block with room for the padding there is a place for the layout and its slot. -/
theorem exists_behind (l : Layout) {base off : Nat} {b : Block} (hroom : l.paddedSize ≤ b.size)
    (hword : base + off + headerSize + b.size < 2 ^ 64) :
    ∃ address, Word.add (base + off + headerSize) Layout.slotSize =
        .ok (base + off + headerSize + Layout.slotSize) ∧
      Word.alignUp (base + off + headerSize + Layout.slotSize) l.align = .ok address ∧
      Behind base l address off (b.slotted (base + off + headerSize) address) := by
  rw [l.paddedSize_eq] at hroom
  have hpos := l.align_pos
  obtain ⟨address, halign, hmod, hle, hlt⟩ :=
    Word.exists_alignUp (a := base + off + headerSize + Layout.slotSize) hpos (by omega)
  refine ⟨address, Word.add_eq_ok.mpr ⟨rfl, by omega⟩, halign, hle, ?_, hmod, ?_⟩
  · show address + l.size ≤ base + off + headerSize + b.size
    omega
  · intro i hi
    show (if _ then _ else _) = _
    rw [if_pos (by omega), Nat.add_sub_cancel_left]

namespace Machine

/-! ## Exchanges, one after the other -/

section Chains

variable {m n o : Machine} {bs bs' bs'' : List Block}
  {gone gone' new new' : List (Nat × Block)}

/-- Two exchanges are one. -/
theorem Exchanged.append (h : Exchanged gone new bs bs' m n)
    (h' : Exchanged gone' new' bs' bs'' n o) :
    Exchanged (gone ++ gone') (new ++ new') bs bs'' m o := by
  refine ⟨h'.sound, h.around.trans h'.around, ?_, ?_⟩
  · rw [List.append_assoc, List.append_assoc]
    calc (gone ++ (gone' ++ live 0 bs'')).Perm (gone ++ (new' ++ live 0 bs')) :=
          List.Perm.append_left gone h'.perm
      List.Perm _ (new' ++ (gone ++ live 0 bs')) := List.perm_append_comm_assoc _ _ _
      List.Perm _ (new' ++ (new ++ live 0 bs)) := List.Perm.append_left new' h.perm
      List.Perm _ (new ++ (new' ++ live 0 bs)) := List.perm_append_comm_assoc _ _ _
  · intro x hx
    rcases List.mem_append.mp hx with hx | hx
    · exact h.filled x hx
    · exact h'.filled x hx

theorem Exchanged.cancel {x : Nat × Block} (h : Exchanged (gone ++ [x]) (x :: new) bs bs' m n) :
    Exchanged gone new bs bs' m n := by
  refine ⟨h.sound, h.around, ?_, fun y hy => h.filled y (List.mem_cons_of_mem x hy)⟩
  have hperm := h.perm
  rw [List.append_assoc, List.singleton_append, List.cons_append] at hperm
  exact (List.perm_middle.symm.trans hperm).cons_inv

theorem Exchanged.amend {x y : Nat × Block} (h : Exchanged gone [x] bs bs' m n)
    (h' : Exchanged [x] [y] bs' bs'' n o) : Exchanged gone [y] bs bs'' m o :=
  (h.append h').cancel

theorem Performed.amend {site : CallSite} {x y : Nat × Block}
    (h : Performed site [] [x] bs bs' m n) (h' : Exchanged [x] [y] bs' bs'' n o)
    (hs : Unaltered bs' bs'') : Performed site [] [y] bs bs'' m o :=
  ⟨h.toExchanged.amend h', h.credited.trans hs.credited
    (fun _ hx => h.mem_live hx List.not_mem_nil) fun _ hx => absurd hx hs.not_dropped⟩

/-- Two calls from one site are one where nothing goes in the first, and only what was
there before goes in the second. -/
theorem Performed.append {site : CallSite} (h : Performed site [] new bs bs' m n)
    (h' : Performed site gone new' bs' bs'' n o) (hgone : ∀ x ∈ gone, x ∈ live 0 bs) :
    Performed site gone (new ++ new') bs bs'' m o := by
  have hcredited := h'.credited
  rw [stamp_of_around h.around] at hcredited
  exact ⟨h.toExchanged.append h'.toExchanged, h.credited.trans hcredited
    (fun _ hx => h.mem_live hx List.not_mem_nil) fun x hx => hgone x (h'.mem_gone hx)⟩

end Chains

/-! ## Writing into a live block -/

/-- Bytes written into the payload of a live block change that block only, and nothing
that is remembered. -/
theorem exchanged_overwrite {m : Machine} {bs : List Block} {off : Nat} {b : Block}
    (hs : m.Served bs) (hb : (off, b) ∈ live 0 bs) (memory : Memory) (bytes : Nat → UInt8)
    (hin : ∀ i, i < b.size → memory.get (off + headerSize + i) = bytes i)
    (hout : ∀ i, i < off + headerSize ∨ off + b.extent ≤ i → memory.get i = m.arena.memory.get i) :
    ∃ bs', Exchanged [(off, b)] [(off, { b with bytes := bytes })] bs bs' m
      { m with arena := { m.arena with memory := memory } } ∧ Unaltered bs bs' := by
  have hfilled := hs.filled _ hb
  obtain ⟨hu, pre, post, rfl, hoff⟩ := mem_live_iff.mp hb
  rw [Nat.zero_add] at hoff
  subst hoff
  obtain ⟨hlists, hinside⟩ := hs.sound.lists.overwrite bytes hin hout
  obtain ⟨horder, hlive⟩ := hs.sound.orderly.replace_used (d := { b with bytes := bytes }) hu hu rfl
  refine ⟨_, ⟨⟨hlists, hs.sound.backed.inside hinside, horder⟩, around_onArena hinside,
    perm_replace hu hlive, ?_⟩, unaltered_replaced hu hlive rfl fun z hz =>
    marked_of_used (d := { b with bytes := bytes }) hu rfl hz⟩
  intro x hx
  rw [List.mem_singleton] at hx
  rw [hx]
  exact hfilled

/-- A range of a payload is overlaid. -/
theorem exchanged_overlay {m : Machine} {bs : List Block} {off : Nat} {b : Block}
    (hs : m.Served bs) (hb : (off, b) ∈ live 0 bs) (start len : Nat) (f : Nat → UInt8)
    (hlen : start + len ≤ b.size) (place : Nat) (hplace : place = off + headerSize + start) :
    ∃ bs', Exchanged [(off, b)] [(off, b.overlaid start len f)] bs bs' m
      { m with arena := { m.arena with
        memory := m.arena.memory.overlay place len fun i => f (i - place) } } ∧
      Unaltered bs bs' := by
  obtain ⟨⟨prev, next, hstands⟩, -⟩ := hs.stands hb
  have he : b.extent = headerSize + b.size := rfl
  refine exchanged_overwrite hs hb _ _ ?_ ?_
  · intro i hi
    rw [Memory.get_overlay, hstands.payload i hi]
    by_cases hin : start ≤ i ∧ i < start + len
    · rw [if_pos (by omega), if_pos hin]
      congr 1
      omega
    · rw [if_neg (by omega), if_neg hin]
  · intro i hi
    rw [Memory.get_overlay, if_neg (by omega)]

/-! ## The way back -/

/-- The slot of a standing block reads as the address of its payload. -/
theorem word_slot {m : Machine} {bs : List Block} {l : Layout} {address off : Nat} {b : Block}
    (hs : m.Served bs) (hb : (off, b) ∈ live 0 bs)
    (hbehind : Behind m.arena.window.base l address off b) :
    m.arena.memory.word (m.slotOffset address) Layout.slotSize = m.arena.payload off := by
  obtain ⟨⟨prev, next, hstands⟩, -⟩ := hs.stands hb
  have hlt := hs.stop_lt hb
  have hslot := hbehind.slot_le
  have hend := hbehind.stop_le
  have hword : m.arena.memory.word (m.slotOffset address) Layout.slotSize =
      (m.arena.window.base + off + headerSize) % 256 ^ Layout.slotSize := by
    apply Memory.word_eq_mod
    intro i hi
    have hplace : m.slotOffset address + i = off + headerSize +
        (address - Layout.slotSize - (m.arena.window.base + off + headerSize) + i) := by
      unfold slotOffset
      omega
    rw [hplace, hstands.payload _ (by omega)]
    exact hbehind.slot i hi
  have hpow : 256 ^ Layout.slotSize = 2 ^ 64 := by decide
  rw [hword, (hs.payload_eq hb).1, hpow]
  exact Nat.mod_eq_of_lt (by omega)

/-! ## Giving out -/

section Layouts

variable {m : Machine} {bs : List Block} {l : Layout}

theorem run_requireInstalled (hi : m.installed = true) : requireInstalled m = .ok () m := by
  unfold requireInstalled
  rw [run_bind_ok (run_get m), if_neg (by simp [hi])]
  rfl

/-- What comes when memory of a large alignment is given out: a block with room for
the padding, and the way back in front of the address. -/
inductive AllocatedBehind (l : Layout) (site : CallSite) (bs : List Block) (m : Machine) :
    Nat → List (Nat × Block) → List (Nat × Block) → Prop
  | intro {pre post : List Block} {c d : Block} {address : Nat} (ho : m.Open)
      (hf : Found (requestSize l.paddedSize) bs pre c post)
      (hd : d = (m.newBlock (requestSize l.paddedSize) site c).slotted
        (m.arena.payload (span pre)) address)
      (hbehind : Behind m.arena.window.base l address (span pre) d) :
      AllocatedBehind l site bs m address [] [(span pre, d)]

/-- Giving out memory of a large alignment. -/
theorem ends_allocateLayout (hs : m.Served bs) (hi : m.installed = true) (hl : ¬ l.Plain)
    (site : CallSite) :
    Ends (Exchanges site (AllocatedBehind l site bs m) bs m) (m.Reported bs)
      (allocateLayout .none l site m) := by
  unfold allocateLayout
  rw [run_bind_ok (run_requireInstalled hi), if_neg hl]
  refine Ends.bind (ends_allocate hs l.paddedSize site) ?_
  rintro block n ⟨gone, new, bs', @⟨pre, post, c, ho, hf⟩, h⟩
  generalize hd : m.newBlock (requestSize l.paddedSize) site c = d at h
  have hs' : n.Served bs' := h.served hs
  have hbase : n.arena.window.base = m.arena.window.base := by rw [h.around.window_eq]
  have hmem : (span pre, d) ∈ live 0 bs' :=
    h.perm.mem_iff.mpr (List.mem_append_left _ (List.mem_singleton_self _))
  have hpayload : m.arena.payload (span pre) = m.arena.window.base + span pre + headerSize := by
    rw [payload_of_around h.around, (hs'.payload_eq hmem).1, hbase]
  have hroom : l.paddedSize ≤ d.size := by
    have h1 : l.paddedSize ≤ requestSize l.paddedSize :=
      Nat.le_trans (Word.le_roundUp _) (Nat.le_max_left _ _)
    have h2 : requestSize l.paddedSize ≤ d.size := hd ▸ Block.le_size_taken hf.le_size
    exact Nat.le_trans h1 h2
  have hlt := hs'.stop_lt hmem
  rw [hbase] at hlt
  obtain ⟨address, hadd, halign, hbehind⟩ := exists_behind l hroom hlt
  rw [hpayload]
  have hslot_le := hbehind.slot_le
  have hstop_le : address + l.size ≤ m.arena.window.base + span pre + headerSize + d.size :=
    hbehind.stop_le
  have hslot : n.slotOffset address = address - Layout.slotSize - m.arena.window.base := by
    unfold slotOffset
    rw [hbase]
  obtain ⟨bs'', hwrite, hsame⟩ := exchanged_overlay hs' hmem
    (address - Layout.slotSize - (m.arena.window.base + span pre + headerSize)) Layout.slotSize
    (Memory.byteOf (m.arena.window.base + span pre + headerSize)) (by omega)
    (n.slotOffset address) (by omega)
  rw [hadd, run_bind_ok (run_lift_ok _ _), halign, run_bind_ok (run_lift_ok _ _),
    run_bind_ok (run_get n)]
  refine ⟨[], [(span pre, d.slotted (m.arena.window.base + span pre + headerSize) address)], bs'',
    ?_, h.amend hwrite hsame⟩
  exact .intro ho hf (by rw [hd, hpayload]) hbehind

/-! ## Taking back -/

theorem ends_freeLayout {off : Nat} {b : Block} {address : Nat} (hs : m.Served bs)
    (hi : m.installed = true) (hl : ¬ l.Plain) (hb : (off, b) ∈ live 0 bs)
    (hbehind : Behind m.arena.window.base l address off b) (site : CallSite) :
    Ends (Exchanges site (Freed off b) bs m) (m.TurnedAway bs site)
      (freeLayout .none address l site m) := by
  unfold freeLayout
  rw [run_bind_ok (run_requireInstalled hi), run_bind_ok (run_get m), if_neg hl,
    word_slot hs hb hbehind]
  exact Ends.bind (ends_free hs hb site) fun r n hn => hn

/-! ## Moving -/

/-- What goes and what comes when memory of a large alignment is resized: there is a
new block elsewhere with the bytes that fit, and the old one is gone.  Where no layout has the new
size nothing happens. -/
inductive MovedBehind (l : Layout) (address newSize off : Nat) (b : Block) (base : Nat) :
    Nat → List (Nat × Block) → List (Nat × Block) → Prop
  | refused (hnone : Layout.ofSizeAlign? newSize l.align = none) :
      MovedBehind l address newSize off b base 0 [] []
  | moved {newLayout : Layout} {target off' : Nat} {d : Block}
      (hsome : Layout.ofSizeAlign? newSize l.align = some newLayout) (hother : off' ≠ off)
      (hbehind : Behind base newLayout target off' d)
      (hcopy : ∀ i, i < min l.size newSize →
        d.bytes (target - (base + off' + headerSize) + i) =
          b.bytes (address - (base + off + headerSize) + i)) :
      MovedBehind l address newSize off b base target [(off, b)] [(off', d)]

/-- Copying from one pointer to another keeps what is behind both. -/
theorem exists_copiedBehind {off off' address target len : Nat} {b d : Block} {newLayout : Layout}
    (hs : m.Served bs) (hb : (off, b) ∈ live 0 bs) (hd : (off', d) ∈ live 0 bs)
    (hbehind : Behind m.arena.window.base l address off b)
    (hnew : Behind m.arena.window.base newLayout target off' d)
    (hlen : len ≤ l.size) (hlen' : len ≤ newLayout.size) :
    ∃ a bs' d', Arena.copyBytes (address - m.arena.window.base) (target - m.arena.window.base) len
        m.arena = .ok () a ∧
      (Exchanged [(off', d)] [(off', d')] bs bs' m { m with arena := a } ∧ Unaltered bs bs') ∧
      Behind m.arena.window.base newLayout target off' d' ∧
      ∀ i, i < len → d'.bytes (target - (m.arena.window.base + off' + headerSize) + i) =
        b.bytes (address - (m.arena.window.base + off + headerSize) + i) := by
  obtain ⟨⟨prev, next, hstands⟩, -⟩ := hs.stands hb
  have h1 := hbehind.slot_le
  have h2 := hbehind.stop_le
  have h3 := hnew.slot_le
  have h4 := hnew.stop_le
  obtain ⟨bs', hwrite⟩ := exchanged_overlay hs hd
    (target - (m.arena.window.base + off' + headerSize)) len
    (fun i => m.arena.memory.get (address - m.arena.window.base + i)) (by omega)
    (target - m.arena.window.base) (by omega)
  refine ⟨_, bs', _, rfl, hwrite, ⟨h3, h4, hnew.aligned, ?_⟩, ?_⟩
  · intro i hi
    exact Eq.trans (if_neg (by omega)) (hnew.slot i hi)
  · intro i hi
    refine Eq.trans (if_pos (by omega)) ?_
    rw [Nat.add_sub_cancel_left, ← hstands.payload _ (by omega)]
    congr 1
    omega

/-- Where memory was given out for the new layout, it gets the bytes that fit, and the old one
is still there. -/
theorem exists_refilled {off : Nat} {b : Block} {address newSize target : Nat} {n : Machine}
    {newLayout : Layout} {site : CallSite} (hs : m.Served bs) (hb : (off, b) ∈ live 0 bs)
    (hbehind : Behind m.arena.window.base l address off b) (hsize : newLayout.size = newSize)
    (hex : Exchanges site (AllocatedBehind newLayout site bs m) bs m target n) :
    ∃ a off' d bs', Arena.copyBytes (address - n.arena.window.base)
        (target - n.arena.window.base) (min l.size newSize) n.arena = .ok () a ∧
      m.Open ∧ Performed site [] [(off', d)] bs bs' m { n with arena := a } ∧ off' ≠ off ∧
      Behind m.arena.window.base newLayout target off' d ∧
      ∀ i, i < min l.size newSize →
        d.bytes (target - (m.arena.window.base + off' + headerSize) + i) =
          b.bytes (address - (m.arena.window.base + off + headerSize) + i) := by
  obtain ⟨gone, new, bs₁, @⟨pre, post, c, d, address', ho, hf, hd, hnew⟩, h₁⟩ := hex
  have hbase : n.arena.window.base = m.arena.window.base := by rw [h₁.around.window_eq]
  have hb₁ : (off, b) ∈ live 0 bs₁ := h₁.mem_live hb List.not_mem_nil
  have hd₁ : (span pre, d) ∈ live 0 bs₁ :=
    h₁.perm.mem_iff.mpr (List.mem_append_left _ (List.mem_singleton_self _))
  rw [← hbase] at hbehind hnew
  obtain ⟨a, bs₂, d', hcopy, ⟨h₂, hsame⟩, hnew', hbytes⟩ :=
    exists_copiedBehind (h₁.served hs) hb₁ hd₁ hbehind hnew (Nat.min_le_left l.size newSize)
      (hsize ▸ Nat.min_le_right l.size newSize)
  rw [hbase] at hnew' hbytes
  exact ⟨a, span pre, d', bs₂, hcopy, ho, h₁.amend h₂ hsame,
    (fst_ne_of_perm h₁.perm.symm hb).symm, hnew', hbytes⟩

/-- Resizing memory of a large alignment moves it, if there is a layout and a place. -/
theorem ends_reallocateLayout {off : Nat} {b : Block} {address : Nat} (hs : m.Served bs)
    (hi : m.installed = true) (hl : ¬ l.Plain) (hb : (off, b) ∈ live 0 bs)
    (hbehind : Behind m.arena.window.base l address off b) (newSize : Nat) (site : CallSite) :
    Ends (Exchanges site (MovedBehind l address newSize off b m.arena.window.base) bs m)
      (m.Reported bs) (reallocateLayout .none address l newSize site m) := by
  unfold reallocateLayout
  rw [if_neg hl]
  cases hsome : Layout.ofSizeAlign? newSize l.align with
  | none => exact ⟨[], [], bs, .refused hsome, Performed.refl hs.sound m.journal⟩
  | some newLayout =>
    obtain ⟨hsize, halign⟩ := Layout.ofSizeAlign?_eq_some hsome
    have hl' : ¬ newLayout.Plain := by
      unfold Layout.Plain
      rwa [halign]
    refine Ends.bind (ends_allocateLayout hs hi hl' site) ?_
    intro target n hex
    obtain ⟨a, off', d, bs₁, hcopy, ho, h₁, hother, hnew, hbytes⟩ :=
      exists_refilled hs hb hbehind hsize hex
    have hb₁ : (off, b) ∈ live 0 bs₁ := h₁.mem_live hb List.not_mem_nil
    have hi₁ : installed { n with arena := a } = true := h₁.around.installed_eq.trans hi
    have hbehind₁ : Behind (arena { n with arena := a }).window.base l address off b := by
      rwa [h₁.around.window_eq]
    rw [run_bind_ok (run_get n), run_bind_ok (run_onArena_ok hcopy)]
    refine Ends.bind
      ((ends_freeLayout (h₁.served hs) hi₁ hl hb₁ hbehind₁ site).mono (fun _ _ hn => hn) ?_) ?_
    · -- the context that could allocate can free
      rintro e o ⟨hclosed, -⟩
      have hopen : Open { n with arena := a } := by
        unfold Open
        rw [h₁.around.context_eq]
        exact ho
      exact absurd hopen hclosed
    · rintro r o ⟨gone, new, bs₂, ⟨rfl, rfl⟩, h₂⟩
      refine ⟨_, _, bs₂, .moved hsome hother hnew hbytes, h₁.append h₂ fun x hx => ?_⟩
      rw [List.mem_singleton.mp hx]
      exact hb

end Layouts

end Machine

end GuardedHeap
