/-
  Proofs/Oversight.lean --- resizing a block in a heap with overwritten guards.

  WHAT THIS FILE IS FOR.  Guard damage is to be reported before the list is changed, also
  by the operation that reads headers at the most places.  Giving a block back looks at all
  it depends on first.  Resizing one does so only for its first step.

  WHAT IS PROVED.  From every world well-behaved clients lead to, whichever guards are
  overwritten: when resizing a live block reports corruption, memory, top, last segment and
  pages are as they were, unless the damage is of the kind that is overlooked at first.
  Damage of that kind is always reported too late: memory has changed by then.
-/
import GuardedHeap.Proofs.Damage.Resizing
import GuardedHeap.Proofs.Relinking

set_option autoImplicit false

namespace GuardedHeap

/-- Where nothing was hit a sound heap is sound. -/
theorem Arena.Overwritten.sound_of_nil {guard : Nat → Nat} {a a' : Arena} {p : Platform}
    {bs : List Block} (h : a.Overwritten [] guard a') (hs : a.Sound p bs) : a'.Sound p bs := by
  have hsame : ∀ i, a'.memory.get i = a.memory.get i := fun i => h.kept i fun _ hl => nomatch hl
  refine ⟨⟨hs.lists.tiled.congr fun i _ _ => hsame i, h.top_eq.trans hs.lists.top_eq, ?_,
    hs.lists.aligned, ?_⟩, hs.backed.inside ⟨h.window_eq, h.top_eq, fun i _ => hsame i⟩, ?_⟩
  · rw [h.last_eq]
    exact hs.lists.last_eq
  · rw [h.top_eq, h.window_eq]
    exact hs.lists.top_le
  · rw [h.window_eq]
    exact hs.orderly

namespace World

open Machine

variable {w : World}

/-- With the guards at the offsets in `lost` overwritten, resizing a live block to some bytes
that ends in a report of corruption changed nothing, unless it overlooked the damage at first.
Damage it overlooks is reported when memory has changed. -/
theorem Reachable.overlooks (h : w.Reachable) {lost : List Nat} {guard : Nat → Nat} {a : Arena}
    (hdamage : w.machine.arena.Overwritten lost guard a)
    (hlost : ∀ off ∈ lost, ∃ t ∈ w.machine.arena.walk.segments, t.offset = off) {s : Segment}
    (hs : s ∈ w.machine.arena.walk.segments) (hu : s.header.used = true) {size : Nat}
    (hpos : 0 < size) (hmax : size ≤ Word.maxRequest) (site : CallSite) :
    (¬ w.machine.arena.Overlooked lost s (Word.roundUp size) →
      ∀ segment stored found attribution n,
        reallocate .none (w.machine.arena.payload s.offset) size site
            { w.machine with arena := a } =
          .error (.fatal ⟨.corrupted segment stored found, attribution⟩) n →
        ∃ j, n = { w.machine with arena := a, journal := j }) ∧
    (w.machine.Open → w.machine.arena.Overlooked lost s (Word.roundUp size) →
      ∃ t ∈ w.machine.arena.walk.segments, t.offset ∈ lost ∧ ∃ n,
        reallocate .none (w.machine.arena.payload s.offset) size site
            { w.machine with arena := a } =
          .error (.fatal ⟨w.machine.arena.corruption guard t,
            ⟨site, w.machine.context.id, w.machine.context.cpu⟩⟩) n ∧
        ∃ i, n.arena.memory.get i ≠ a.memory.get i) := by
  obtain ⟨bs, hheld⟩ := h.held
  have hserved := hheld.served
  have hl := hserved.sound.lists
  have hm : w.machine.Marred lost guard { w.machine with arena := a } := ⟨hdamage, rfl⟩
  have hrow : Listed lost bs := by
    intro off hoff
    obtain ⟨t, ht, rfl⟩ := hlost off hoff
    obtain ⟨b, hb, -⟩ := hl.exists_place ht
    exact ⟨b, hb⟩
  obtain ⟨pre, b, post, rfl, rfl⟩ := hl.mem_walk_iff.mp hs
  have hb : (span pre, b) ∈ live 0 (pre ++ b :: post) :=
    mem_live_iff.mpr ⟨hu, pre, post, rfl, (Nat.zero_add _).symm⟩
  have haddress := (hserved.payload_eq hb).2
  constructor
  · intro hkept segment stored found attribution n hrun
    -- a call that is declined is not told of corruption, nor is one that stops
    have hdeclines : ¬ Ends (fun _ _ => True)
        (fun e _ => (∃ report : Report, e = .fatal report ∧ report.error.Declines) ∨
          ∃ cause, e = .panic cause)
        (reallocate .none (w.machine.arena.payload (span pre)) size site
          { w.machine with arena := a }) := by
      rw [hrun]
      rintro (⟨report, ⟨⟩, hdeclines⟩ | ⟨cause, ⟨⟩⟩)
      exact hdeclines
    by_cases ho : w.machine.Open
    · by_cases hne : lost = []
      · subst hne
        have hs' : Served (pre ++ b :: post) { w.machine with arena := a } :=
          ⟨hdamage.sound_of_nil hserved.sound, hserved.lock_eq, hserved.filled⟩
        have hpayload : a.payload (span pre) = w.machine.arena.payload (span pre) := by
          unfold Arena.payload
          rw [hdamage.addr_eq]
        have hends := ends_reallocate hs' hb hpos site
        rw [hpayload] at hends
        exact absurd (hends.mono (fun _ _ _ => trivial) fun _ _ hn =>
          hn.1.imp_right fun hlong => ⟨_, hlong.1⟩) hdeclines
      · rcases reallocate_overwritten hserved ho hu hm hrow hne hpos hmax site with
          ⟨hlate, -⟩ | ⟨-, ⟨t, -, -, j, hreport⟩ | ⟨r, n', hok⟩ | ⟨n', hpanic⟩⟩
        · exact absurd hlate hkept
        · rw [hrun] at hreport
          cases hreport
          exact ⟨j, rfl⟩
        · rw [hrun] at hok
          cases hok
        · rw [hrun] at hpanic
          cases hpanic
    · have hclosed := ends_reallocate_closed (m := { w.machine with arena := a }) ho hpos haddress
        site
      exact absurd (hclosed.mono (fun _ _ _ => trivial) fun _ _ hn => .inl hn) hdeclines
  · intro ho hlate
    have hne : lost ≠ [] := by
      cases hlate with
      | cut _ _ _ _ _ _ hlost => exact List.ne_nil_of_mem hlost
      | moved _ _ _ _ hne => exact hne
    rcases reallocate_overwritten hserved ho hu hm hrow hne hpos hmax site with
      ⟨-, hreport⟩ | ⟨hkept, -⟩
    · exact hreport
    · exact absurd hlate hkept

/-- The row with the gap after the guard of the block behind the gap was cleared. -/
def gapUnguarded : Arena :=
  { smallGap.machine.arena with memory := smallGap.machine.arena.memory.writeWord 352 4 0 }

theorem overwritten_gapUnguarded :
    smallGap.machine.arena.Overwritten [352] (fun _ => 0) gapUnguarded where
  window_eq := rfl
  top_eq := rfl
  last_eq := rfl
  guardAt_eq off hoff := by
    rw [List.mem_singleton] at hoff
    subst hoff
    exact Memory.word_writeWord _ _ _ _
  other _ _ := by decide
  kept i h := Memory.get_writeWord_of_outside _ (h 352 (List.mem_singleton_self _))

/-- Growing the first block over the gap finds the damage in time, and cutting it down does
not. -/
theorem overlooks_gapUnguarded :
    (∀ segment stored found attribution n,
      reallocate .none (smallGap.machine.arena.payload 0) 200 ⟨6⟩
          { smallGap.machine with arena := gapUnguarded } =
        .error (.fatal ⟨.corrupted segment stored found, attribution⟩) n →
      ∃ j, n = { smallGap.machine with arena := gapUnguarded, journal := j }) ∧
    ∃ error attribution n,
      reallocate .none (smallGap.machine.arena.payload 0) 16 ⟨6⟩
          { smallGap.machine with arena := gapUnguarded } =
        .error (.fatal ⟨error, attribution⟩) n ∧
      ∃ i, n.arena.memory.get i ≠ gapUnguarded.memory.get i := by
  have hfirst : gapFirst ∈ smallGap.machine.arena.walk.segments := by simp [segments_smallGap]
  have hsecond : gapSecond ∈ smallGap.machine.arena.walk.segments := by simp [segments_smallGap]
  have hlost : ∀ off ∈ [352], ∃ t ∈ smallGap.machine.arena.walk.segments, t.offset = off :=
    fun off hoff => ⟨gapThird, by simp [segments_smallGap], (List.mem_singleton.mp hoff).symm⟩
  constructor
  · refine (reachable_smallGap.overlooks overwritten_gapUnguarded hlost hfirst rfl
      (show 0 < 200 by decide) (by decide) ⟨6⟩).1 fun hlate => ?_
    cases hlate with
    | cut hsplit => exact absurd hsplit (by decide)
    | moved _ hnone => exact hnone gapSecond ⟨hsecond, rfl, rfl, by decide⟩
  · have hlate : smallGap.machine.arena.Overlooked [352] gapFirst (Word.roundUp 16) :=
      .cut (t := gapSecond) (by decide) (by decide) hsecond rfl rfl (by decide) (by decide)
    obtain ⟨t, -, -, n, hrun, hchanged⟩ := (reachable_smallGap.overlooks overwritten_gapUnguarded
      hlost hfirst rfl (show 0 < 16 by decide) (by decide) ⟨6⟩).2 (by decide +kernel) hlate
    exact ⟨_, _, n, hrun, hchanged⟩

/-- By the time cutting the first block down reports the damage behind the gap, the block has
its new size. -/
theorem not_unchanged_gapUnguarded :
    smallGap.Reachable ∧ smallGap.machine.arena.Overwritten [352] (fun _ => 0) gapUnguarded ∧
      gapThird ∈ smallGap.machine.arena.walk.segments ∧ gapThird.offset = 352 ∧
      gapFirst ∈ smallGap.machine.arena.walk.segments ∧ gapFirst.header.used = true ∧
      smallGap.machine.arena.payload gapFirst.offset = 0x10000040 ∧
      fails (reallocate .none 0x10000040 16 ⟨6⟩) { smallGap.machine with arena := gapUnguarded }
        (.fatal ⟨.corrupted 0x10000160 112 0,
          ⟨⟨6⟩, smallGap.machine.context.id, smallGap.machine.context.cpu⟩⟩) = true ∧
      Header.sizeAt gapUnguarded.memory 0 = 112 ∧
      Header.sizeAt (after (reallocate .none 0x10000040 16 ⟨6⟩)
        { smallGap.machine with arena := gapUnguarded }).arena.memory 0 = 16 :=
  ⟨reachable_smallGap, overwritten_gapUnguarded, by simp [segments_smallGap], rfl,
    by simp [segments_smallGap], rfl, by decide +kernel⟩

end World

end GuardedHeap
