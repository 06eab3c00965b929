/-
  Proofs/Isolation.lean --- no call touches the memory of another client.

  WHAT THIS FILE IS FOR.  Blocks lie beside each other below the top, and a call
  merges, splits, clears and unmaps around them.  What a client may rely on is that
  its own block is there afterwards as it was before: at its offset, with its size
  and its record of who asked for it, and with every byte of its payload.

  WHAT IS PROVED.  In every world well-behaved clients lead to, segments do not
  overlap, and a permitted call leaves every live block in place but the one in which
  its pointer lies, whether it returns or fails.
-/
import GuardedHeap.Proofs.WellFormed

set_option autoImplicit false

namespace GuardedHeap

/-! ## Live blocks as a walk sees them -/

/-- A segment of an arena is in another as it was, payload and all; only its links
may differ. -/
def Segment.StaysIn (s : Segment) (a a' : Arena) : Prop :=
  ∃ t ∈ a'.walk.segments, t.offset = s.offset ∧ t.header.size = s.header.size ∧
    t.header.used = s.header.used ∧ t.header.allocatedAt = s.header.allocatedAt ∧
    t.header.allocatedBy = s.header.allocatedBy ∧
    ∀ i, s.offset + headerSize ≤ i → i < s.stop → a'.memory.get i = a.memory.get i

theorem pairwise_segments (prev : Option Nat) (off : Nat) (bs : List Block) :
    (segments prev off bs).Pairwise fun s t => s.stop ≤ t.offset := by
  induction bs generalizing prev off with
  | nil => exact List.Pairwise.nil
  | cons b rest ih =>
    refine List.Pairwise.cons ?_ (ih _ _)
    intro t ht
    obtain ⟨pre, c, post, -, rfl⟩ := mem_segments_iff.mp ht
    show off + headerSize + b.size ≤ off + (headerSize + b.size) + span pre
    omega

theorem exists_live_of_used {bs : List Block} {s : Segment} (hs : s ∈ segments none 0 bs)
    (hu : s.header.used = true) :
    ∃ b prev next, (s.offset, b) ∈ live 0 bs ∧ s.header = b.header prev next := by
  obtain ⟨pre, b, post, hbs, rfl⟩ := mem_segments_iff.mp hs
  exact ⟨b, _, _, mem_live_iff.mpr ⟨hu, pre, post, hbs, rfl⟩, rfl⟩

theorem exists_segment_of_live {bs : List Block} {off : Nat} {b : Block}
    (hb : (off, b) ∈ live 0 bs) :
    ∃ t ∈ segments none 0 bs, t.offset = off ∧ ∃ prev next, t.header = b.header prev next := by
  obtain ⟨-, pre, post, hbs, rfl⟩ := mem_live_iff.mp hb
  exact ⟨_, mem_segments_iff.mpr ⟨pre, b, post, hbs, rfl⟩, rfl, _, _, rfl⟩

theorem Tiled.payload {m : Memory} {bs : List Block} {off : Nat} {b : Block}
    (ht : Tiled m none 0 bs none) (hb : (off, b) ∈ live 0 bs) {i : Nat} (hi : i < b.size) :
    m.get (off + headerSize + i) = b.bytes i := by
  obtain ⟨-, pre, post, rfl, rfl⟩ := mem_live_iff.mp hb
  exact ht.stands.payload i hi

/-- A live block of two rows stays in the arena that holds the second. -/
theorem staysIn_of_live {a a' : Arena} {bs bs' : List Block} {s : Segment}
    (ht : Tiled a.memory none 0 bs none) (ht' : Tiled a'.memory none 0 bs' none)
    (hw' : a'.walk = ⟨segments none 0 bs', none⟩) {b : Block} {prev next : Option Nat}
    (hb : (s.offset, b) ∈ live 0 bs) (hb' : (s.offset, b) ∈ live 0 bs')
    (hs : s.header = b.header prev next) : s.StaysIn a a' := by
  obtain ⟨t, hmem, hoff, prev', next', hheader⟩ := exists_segment_of_live hb'
  refine ⟨t, by rw [hw']; exact hmem, hoff, ?_, ?_, ?_, ?_, ?_⟩
  · rw [hheader, hs]
    rfl
  · rw [hheader, hs]
    rfl
  · rw [hheader, hs]
    rfl
  · rw [hheader, hs]
    rfl
  · intro i h1 h2
    have hstop : s.stop = s.offset + headerSize + b.size := by
      unfold Segment.stop
      rw [hs]
      rfl
    have hplace : i = s.offset + headerSize + (i - (s.offset + headerSize)) := by omega
    rw [hplace, ht.payload hb (by omega), ht'.payload hb' (by omega)]

/-! ## Calls -/

open Machine

theorem Machine.Stalled.staysIn {m n : Machine} {bs : List Block} (h : m.Stalled bs n)
    (hl : m.arena.Lists bs) {s : Segment} (hs : s ∈ m.arena.walk.segments)
    (hu : s.header.used = true) : s.StaysIn m.arena n.arena := by
  obtain ⟨bs', hwalk, htiled, hlive⟩ := h.exists_walk
  rw [hl.walk] at hs
  obtain ⟨b, prev, next, hb, hheader⟩ := exists_live_of_used hs hu
  exact staysIn_of_live hl.tiled htiled hwalk hb (hlive ▸ hb) hheader

/-- A call names at most one of the segments of a row. -/
theorem Call.names_unique {c : Call} {w : Window} {bs : List Block} {s t : Segment}
    (hs : s ∈ segments none 0 bs) (ht : t ∈ segments none 0 bs)
    (hn : c.Names w s.offset s.header.size) (hn' : c.Names w t.offset t.header.size) : s = t := by
  have hpair : (segments none 0 bs).Pairwise fun s t =>
      c.Names w s.offset s.header.size → c.Names w t.offset t.header.size → s = t := by
    refine (pairwise_segments none 0 bs).imp ?_
    rintro s t hle ⟨p, hp, -, h1⟩ ⟨q, hq, h2, -⟩
    obtain rfl : p = q := Option.mem_unique hp hq
    unfold Segment.stop at hle
    simp only [headerSize] at *
    omega
  exact List.Pairwise.forall_of_forall_of_flip (fun _ _ _ _ => rfl) hpair
    (hpair.imp fun h ht hs => (h hs ht).symm) hs ht hn hn'

/-- Live blocks a permitted call does not name stay where they are, however it ends. -/
theorem World.Held.staysIn {w : World} {bs : List Block} (h : w.Held bs) {c : Call}
    (hp : c.Permitted w.ledger) (site : CallSite) {s : Segment}
    (hs : s ∈ w.machine.arena.walk.segments) (hu : s.header.used = true)
    (hn : ¬ c.Names w.machine.arena.window s.offset s.header.size) :
    s.StaysIn w.machine.arena (after (c.run .none site) w.machine).arena := by
  have hl := h.served.sound.lists
  have hcall := ends_call h hp site
  unfold after
  cases hr : c.run .none site w.machine with
  | ok reply m =>
    rw [hr] at hcall
    obtain ⟨bs', hheld, -, hkept, -⟩ := hcall
    rw [hl.walk] at hs
    obtain ⟨b, prev, next, hb, hheader⟩ := exists_live_of_used hs hu
    have hl' : m.arena.Lists bs' := hheld.served.sound.lists
    have hsize : s.header.size = b.size := by rw [hheader]; rfl
    rw [hsize] at hn
    exact staysIn_of_live hl.tiled hl'.tiled hl'.walk hb (hkept _ hb hn) hheader
  | error e m =>
    rw [hr] at hcall
    exact Machine.Stalled.staysIn hcall hl hs hu

/-- In every world well-behaved clients lead to, segments lie beside each other below
the top, and whatever a permitted call does, every live block it does not name stays as
it is. -/
theorem World.Reachable.isolated {w : World} (h : w.Reachable) :
    (w.machine.arena.walk.segments.Pairwise fun s t => s.stop ≤ t.offset) ∧
      (∀ s ∈ w.machine.arena.walk.segments, s.stop ≤ w.machine.arena.top) ∧
      ∀ (c : Call) (site : CallSite), c.Permitted w.ledger →
        (∀ s ∈ w.machine.arena.walk.segments, ∀ t ∈ w.machine.arena.walk.segments,
          c.Names w.machine.arena.window s.offset s.header.size →
          c.Names w.machine.arena.window t.offset t.header.size → s = t) ∧
        ∀ s ∈ w.machine.arena.walk.segments, s.header.used = true →
          ¬ c.Names w.machine.arena.window s.offset s.header.size →
          s.StaysIn w.machine.arena (after (c.run .none site) w.machine).arena := by
  obtain ⟨bs, hheld⟩ := h.held
  have hl := hheld.served.sound.lists
  have hw := hl.walk
  refine ⟨?_, ?_, fun c site hp => ⟨?_,
    fun s hs hu hn => hheld.staysIn hp site hs hu hn⟩⟩
  · rw [hw]
    exact pairwise_segments none 0 bs
  · intro s hs
    rw [hw] at hs
    obtain ⟨pre, b, post, rfl, rfl⟩ := mem_segments_iff.mp hs
    have hstop := hl.stop_le
    have he : b.extent = headerSize + b.size := rfl
    show 0 + span pre + headerSize + b.size ≤ w.machine.arena.top
    omega
  · intro s hs t ht hn hn'
    rw [hw] at hs ht
    exact Call.names_unique hs ht hn hn'

/-- Freeing the first block of the small heap leaves the second where it is. -/
theorem World.isolated_smallWorld :
    ∃ s ∈ smallWorld.machine.arena.walk.segments, s.offset = 176 ∧
      s.StaysIn smallWorld.machine.arena
        (after ((Call.free 0x10000040).run .none ⟨3⟩) smallWorld.machine).arena := by
  obtain ⟨-, -, hcalls⟩ := World.Reachable.isolated reachable_smallWorld
  have hheld : (⟨0x10000040, none⟩ : Grant) ∈ smallWorld.ledger :=
    List.mem_cons_of_mem _ (List.mem_singleton_self _)
  have hmem : (⟨176, ⟨true, 336, some 0, some 576, none, none, none⟩⟩ : Segment) ∈
      smallWorld.machine.arena.walk.segments := by decide +kernel
  refine ⟨_, hmem, rfl, (hcalls (.free 0x10000040) ⟨3⟩ (Or.inr hheld)).2 _ hmem rfl ?_⟩
  rintro ⟨p, hp, hlow, -⟩
  have hbase : smallWorld.machine.arena.window.base = 0x10000000 := by decide +kernel
  cases hp
  rw [hbase] at hlow
  exact absurd hlow (by decide)

end GuardedHeap
