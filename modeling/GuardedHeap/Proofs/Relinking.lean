/-
  Proofs/Relinking.lean --- giving a block back between overwritten links.

  WHAT THIS FILE IS FOR.  A client that writes where it may not can destroy the sizes and
  links of headers and leave their guards.  Giving a block back depends on the header of
  the block, on its neighbors, and on what lies beyond those that are free.

  WHAT IS PROVED.  From every world well-behaved clients lead to, whichever of these sizes
  and links are overwritten: where one of the links that are looked at leads astray, an
  error is reported and nothing is changed.  Where none does there may still be an error,
  and then the block is lost: it is not in use any more.
-/
import GuardedHeap.Proofs.Damage.Unmarked

set_option autoImplicit false

namespace GuardedHeap

/-! ## Overwritten sizes and links -/

/-- Other values stand where the sizes and links of the headers at the offsets in `hit`
were.  Nothing else changed. -/
structure Arena.Relinked (hit : List Nat) (a a' : Arena) : Prop where
  window_eq : a'.window = a.window
  top_eq : a'.top = a.top
  last_eq : a'.last = a.last
  kept : ∀ i, (∀ off ∈ hit, i < off + 8 ∨ off + 32 ≤ i) → a'.memory.get i = a.memory.get i

/-- Every header of a row keeps its guard and its flag. -/
theorem Arena.Relinked.agree {hit : List Nat} {a a' : Arena} {pre post : List Block} {b : Block}
    (h : a.Relinked hit a') (hrow : Listed hit (pre ++ b :: post)) :
    Agree a.memory a'.memory (span pre) (span pre + 8) := by
  intro i h1 h2
  refine h.kept i fun l hl => ?_
  obtain ⟨c, hc⟩ := hrow l hl
  have hb : b.extent = headerSize + b.size := rfl
  have he : c.extent = headerSize + c.size := rfl
  simp only [headerSize] at hb he
  rcases mem_places_cases hc with hlow | hsame | hhigh
  · simp only at hlow
    omega
  · cases hsame
    omega
  · simp only at hhigh
    omega

namespace World

open Machine

variable {w : World}

/-- With the sizes and links of headers overwritten that giving a live block back depends
on: what the look at them finds is reported and nothing is changed, and whatever error it
does not find comes when the block is not marked as in use any more. -/
theorem Reachable.frees_relinked (h : w.Reachable) (ho : w.machine.Open) {hit : List Nat}
    {a : Arena} (hdamage : w.machine.arena.Relinked hit a) {s : Segment}
    (hs : s ∈ w.machine.arena.walk.segments) (hu : s.header.used = true)
    (hhit : ∀ off ∈ hit, ∃ t ∈ w.machine.arena.walk.segments,
      w.machine.arena.Involved s t ∧ t.offset = off) (site : CallSite) :
    (¬ a.Vouched s.offset → ∃ error, Reports { w.machine with arena := a } site error
        (free .none (w.machine.arena.payload s.offset) site { w.machine with arena := a })) ∧
      (a.Vouched s.offset → ∀ e n,
        free .none (w.machine.arena.payload s.offset) site { w.machine with arena := a } =
            .error e n →
          a.memory.get (s.offset + 4) ≠ 0 ∧ n.arena.memory.get (s.offset + 4) = 0) := by
  obtain ⟨bs, hheld⟩ := h.held
  have hserved := hheld.served
  have hl := hserved.sound.lists
  have hbacked := hserved.sound.backed
  have hrow : Listed hit bs := by
    intro off hoff
    obtain ⟨t, ht, -, rfl⟩ := hhit off hoff
    obtain ⟨b, hb, -⟩ := hl.exists_place ht
    exact ⟨b, hb⟩
  obtain ⟨pre, b, post, rfl, rfl⟩ := hl.mem_walk_iff.mp hs
  have hb : (span pre, b) ∈ live 0 (pre ++ b :: post) :=
    mem_live_iff.mpr ⟨hu, pre, post, rfl, (Nat.zero_add _).symm⟩
  -- the guard of the block and its flag are still there
  have hagree := hdamage.agree hrow
  obtain ⟨hroom, hguard, hload⟩ := Arena.read_eq_ok hl.read
  rw [← hdamage.top_eq] at hroom
  have htop : a.top ≤ a.window.ceiling := by
    rw [hdamage.top_eq, hdamage.window_eq]
    exact hl.top_le
  have hfloor : a.window.floor ≤ a.top := by
    rw [hdamage.top_eq, hdamage.window_eq]
    exact hbacked.floor_le
  have hguard' : Header.guardAt a.memory (span pre) = guardWord :=
    (Header.guardAt_congr fun i h1 h2 => hagree i h1 (by omega)).trans hguard
  have hflag := hagree (span pre + 4) (by omega) (by omega)
  have hflag' : a.memory.get (span pre + 4) ≠ 0 := by
    rw [hload] at hu
    simpa [Header.load, hflag] using hu
  have haddress := (hserved.payload_eq hb).2
  have hlocate : a.locate (w.machine.arena.payload (span pre)) = .ok (span pre) := by
    rw [← hl.locate_payload (hserved.filled _ hb)]
    unfold Arena.locate Arena.addr
    rw [hdamage.top_eq, hdamage.window_eq]
  obtain ⟨hbad, hgood⟩ := free_decided (m := { w.machine with arena := a }) hserved.lock_eq ho
    haddress hlocate hl.span_pre_aligned hroom hguard' (by simpa [Header.load] using hflag')
    hfloor htop site
  refine ⟨hbad, fun hv e n hrun => ⟨hflag', ?_⟩⟩
  have hends := hgood hv
  rw [hrun] at hends
  exact hends

/-- The small heap with a second block like the first. -/
def smallPair : World :=
  ⟨after (allocate .none 100 ⟨2⟩) smallHeap, [⟨0x100000f0, none⟩, ⟨0x10000040, none⟩]⟩

/-- And with a third. -/
def smallRow : World :=
  ⟨after (allocate .none 100 ⟨3⟩) smallPair.machine,
    [⟨0x100001a0, none⟩, ⟨0x100000f0, none⟩, ⟨0x10000040, none⟩]⟩

/-- The row of three after the one in the middle was given back. -/
def smallGap : World :=
  ⟨after (free .none 0x100000f0 ⟨4⟩) smallRow.machine, [⟨0x100001a0, none⟩, ⟨0x10000040, none⟩]⟩

theorem reachable_smallRow : smallRow.Reachable := by
  have hsecond : allocate .none 100 ⟨2⟩ smallBlock.machine = .ok 0x100000f0 smallPair.machine :=
    run_of_returns (by decide +kernel)
  have hthird : allocate .none 100 ⟨3⟩ smallPair.machine = .ok 0x100001a0 smallRow.machine :=
    run_of_returns (by decide +kernel)
  have hpair := @Step.call smallBlock (.allocate 100) ⟨2⟩ _ _ trivial (run_bind_ok hsecond)
  have hrow := @Step.call smallPair (.allocate 100) ⟨3⟩ _ _ trivial (run_bind_ok hthird)
  exact (reachable_smallBlock.step hpair).step hrow

theorem reachable_smallGap : smallGap.Reachable := by
  have hheld : (⟨0x100000f0, none⟩ : Grant) ∈ smallRow.ledger := by simp [smallRow]
  have hfree : free .none 0x100000f0 ⟨4⟩ smallRow.machine = .ok true smallGap.machine :=
    run_of_returns (by decide +kernel)
  have hstep := @Step.call smallRow (.free 0x100000f0) ⟨4⟩ _ _ (Or.inr hheld)
    (run_bind_ok hfree)
  exact reachable_smallRow.step hstep

/-- The segments of the row with the gap. -/
def gapFirst : Segment := ⟨0, ⟨true, 112, none, some 176, none, none, none⟩⟩
def gapSecond : Segment := ⟨176, ⟨false, 112, some 0, some 352, none, none, some ⟨4⟩⟩⟩
def gapThird : Segment := ⟨352, ⟨true, 112, some 176, some 528, none, none, none⟩⟩
def gapTail : Segment := ⟨528, ⟨false, 3504, some 352, none, none, none, none⟩⟩

theorem segments_smallGap :
    smallGap.machine.arena.walk.segments = [gapFirst, gapSecond, gapThird, gapTail] := by
  decide +kernel

/-- The row after the next link of the gap was overwritten. -/
def gapUnlinked : Arena :=
  { smallGap.machine.arena with
    memory := smallGap.machine.arena.memory.writeWord 200 8 (2 ^ 64 - 1) }

theorem relinked_gapUnlinked : smallGap.machine.arena.Relinked [176] gapUnlinked where
  window_eq := rfl
  top_eq := rfl
  last_eq := rfl
  kept i h := Memory.get_writeWord_of_outside _ (by
    have := h 176 (List.mem_singleton_self _)
    omega)

theorem involved_gapUnlinked : ∀ off ∈ [176], ∃ t ∈ smallGap.machine.arena.walk.segments,
    smallGap.machine.arena.Involved gapThird t ∧ t.offset = off := by
  intro off hoff
  rw [List.mem_singleton] at hoff
  exact ⟨gapSecond, by simp [segments_smallGap], .prev rfl, hoff.symm⟩

/-- The look finds nothing there, so that any error comes too late. -/
theorem frees_relinked_gapUnlinked :
    gapUnlinked.Vouched 352 ∧ ∀ e n,
      free .none (smallGap.machine.arena.payload 352) ⟨5⟩
          { smallGap.machine with arena := gapUnlinked } = .error e n →
        n.arena.memory.get 356 = 0 := by
  have hv : gapUnlinked.Vouched gapThird.offset := by decide +kernel
  have hlate := (reachable_smallGap.frees_relinked (by decide +kernel) relinked_gapUnlinked
    (s := gapThird) (by simp [segments_smallGap]) rfl involved_gapUnlinked ⟨5⟩).2 hv
  exact ⟨hv, fun e n hrun => (hlate e n hrun).2⟩

/-- And there is one: the merge misses the link, when the block is not in use any more. -/
theorem not_unchanged_gapUnlinked :
    smallGap.Reachable ∧ smallGap.machine.arena.Relinked [176] gapUnlinked ∧
      gapThird ∈ smallGap.machine.arena.walk.segments ∧ gapThird.header.used = true ∧
      smallGap.machine.arena.payload 352 = 0x100001a0 ∧
      fails (free .none 0x100001a0 ⟨5⟩) { smallGap.machine with arena := gapUnlinked }
        (.fatal ⟨.inconsistent 0x100000b0 .notNeighbor,
          ⟨⟨5⟩, smallGap.machine.context.id, smallGap.machine.context.cpu⟩⟩) = true ∧
      gapUnlinked.memory.get 356 = 1 ∧
      (after (free .none 0x100001a0 ⟨5⟩)
        { smallGap.machine with arena := gapUnlinked }).arena.memory.get 356 = 0 :=
  ⟨reachable_smallGap, relinked_gapUnlinked, by simp [segments_smallGap], rfl,
    by decide +kernel⟩

end World

end GuardedHeap
