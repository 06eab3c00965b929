/-
  Proofs/Reversal.lean --- taking memory into use and giving it back at once.

  WHAT THIS FILE IS FOR.  Taking part of a free segment into use splits it where enough is
  left, and giving it back merges it with what was split off.  Both move the links of up to
  three headers and, at the end of the heap, the recorded last segment.

  WHAT IS PROVED.  In every regular arena, for every free segment with a clear payload and
  every size on the granule that fits, the two undo each other: afterwards there are the
  same segments with the same payloads, the same last one and the same top.  The arena is
  regular after every step, and neither step changes a byte but in the headers of the
  segment, of what was split off and of the segment behind.
-/
import GuardedHeap.Proofs.Regular
import GuardedHeap.Proofs.Shortage
import GuardedHeap.Proofs.Relinking

set_option autoImplicit false

namespace GuardedHeap

namespace Arena

/-- What it comes to when `size` bytes of a segment `s` between `pre` and `post` are taken into
use, the segment is marked as free again, and it is merged with what was split off. -/
structure Reverts (a : Arena) (pre : List Segment) (s : Segment) (post : List Segment)
    (size : Nat) (a₁ a₂ a₃ : Arena) : Prop where
  /-- all three succeed, and the first returns what is merged in the last -/
  occupies : occupy s.offset size a = .ok (s.split? size) a₁
  marks : ∃ h, amend s.offset (fun h => { h with used := false }) a₁ = .ok h a₂
  absorbs : absorb s.offset (s.split? size) a₂ = .ok s.offset a₃
  /-- so does the last with the two segments exchanged -/
  swapped : ∀ off ∈ s.split? size, absorb off (some s.offset) a₂ = .ok s.offset a₃
  /-- the rules hold after each of them, and in the end for the segments that were there -/
  occupied : a₁.Regular (pre ++ s.carve true size post)
  marked : a₂.Regular (pre ++ s.carve false size post)
  restored : a₃.Regular (pre ++ s :: post)
  last_eq : a₃.last = a.last
  top_eq : a₃.top = a.top
  /-- with the payloads that they had -/
  payloads : ∀ t ∈ pre ++ s :: post, ∀ i, i < t.header.size →
    a₃.memory.get (t.offset + headerSize + i) = a.memory.get (t.offset + headerSize + i)
  /-- and no byte changes but in the headers of the segment, of what is split off and of the
  segment behind -/
  occupies_within : a.Reheaded (s.affected size post) a₁
  marks_within : a₁.Reheaded [s.offset] a₂
  absorbs_within : a₂.Reheaded (s.affected size post) a₃

namespace Regular

variable {a b : Arena} {pre post : List Segment} {s : Segment} {size : Nat}

/-- Merging puts a segment together again of which some was taken. -/
theorem absorb_carve (h : a.Regular (pre ++ s.carve false size post)) (htop : a.top < 2 ^ 64)
    (hfree : s.header.used = false) (hmeets : (s :: post).IsChain Segment.Meets) :
    ∃ a', absorb s.offset (s.split? size) a = .ok s.offset a' ∧
      (∀ off ∈ s.split? size, absorb off (some s.offset) a = .ok s.offset a') ∧
      a'.Regular (pre ++ s :: post) ∧ a.Reheaded (s.affected size post) a' ∧
      ∀ off ∈ s.split? size, ∀ i, off ≤ i → i < off + headerSize → a'.memory.get i = 0 := by
  unfold Segment.carve at h
  unfold Segment.affected Segment.split?
  by_cases hsplit : headerSize < s.header.size - size
  · rw [if_pos hsplit] at h
    rw [if_pos hsplit]
    obtain ⟨hup, hdown⟩ := h.absorb_eq htop rfl rfl
    obtain ⟨a', hjoin, hregular, hwithin, hclear⟩ := h.join htop
    rw [Segment.fuse_remnant hfree hsplit, relink_relink] at hregular
    rw [head?_offset_congr (map_core_relink _ post)] at hwithin
    refine ⟨a', hup.trans hjoin, fun off hoff => ?_, ?_, hwithin, fun off hoff => ?_⟩
    · cases hoff
      exact hdown.trans hjoin
    · rwa [← relink_of_meets hmeets]
    · cases hoff
      exact hclear
  · rw [if_neg hsplit, Segment.mark_eq hfree] at h
    rw [if_neg hsplit]
    exact ⟨a, rfl, fun off hoff => (nomatch hoff), h, ⟨rfl, rfl, fun _ _ => rfl⟩,
      fun off hoff => (nomatch hoff)⟩

/-- The three steps together change the headers of the segment and of the one behind. -/
theorem reheaded_restored {a₁ a₂ a₃ : Arena} (h₁ : a.Reheaded (s.affected size post) a₁)
    (h₂ : a₁.Reheaded [s.offset] a₂) (h₃ : a₂.Reheaded (s.affected size post) a₃)
    (hclear : ∀ i, s.offset + headerSize ≤ i → i < s.stop → a.memory.get i = 0)
    (hzero : ∀ off ∈ s.split? size, ∀ i, off ≤ i → i < off + headerSize → a₃.memory.get i = 0) :
    a.Reheaded (s.offset :: (post.head?.map Segment.offset).toList) a₃ := by
  refine ⟨h₃.window_eq.trans (h₂.window_eq.trans h₁.window_eq),
    h₃.top_eq.trans (h₂.top_eq.trans h₁.top_eq), fun i hi => ?_⟩
  obtain ⟨hself, hnext⟩ := List.forall_mem_cons.mp hi
  by_cases hin : ∃ off ∈ s.split? size, off ≤ i ∧ i < off + headerSize
  · -- the header of what was split off is cleared, and there was nothing before
    obtain ⟨off, hoff, hlow, hhigh⟩ := hin
    obtain ⟨hstart, hstop⟩ := Segment.split?_bounds hoff
    rw [hzero off hoff i hlow hhigh, hclear i (by omega) (by omega)]
  · have hout : ∀ off ∈ s.affected size post, i < off ∨ off + headerSize ≤ i := by
      refine List.forall_mem_cons.mpr ⟨hself, fun off hoff => ?_⟩
      rcases List.mem_append.mp hoff with hoff | hoff
      · by_contra hno
        exact hin ⟨off, Option.mem_toList.mp hoff, by omega, by omega⟩
      · exact hnext off hoff
    rw [h₃.get_eq i hout, h₂.get_eq i (List.forall_mem_singleton.mpr hself), h₁.get_eq i hout]

/-- Taking part of a clear free segment into use is undone by marking it as free and merging
it with what was split off. -/
theorem reverts (h : a.Regular (pre ++ s :: post)) (htop : a.top < 2 ^ 64)
    (hfree : s.header.used = false)
    (hclear : ∀ i, i < s.header.size → a.memory.get (s.offset + headerSize + i) = 0)
    (hg : size % granule = 0) (hle : size ≤ s.header.size) :
    ∃ a₁ a₂ a₃, a.Reverts pre s post size a₁ a₂ a₃ := by
  have hbehind := (List.isChain_split.mp h.meets).2
  obtain ⟨a₁, hoccupy, hregular₁, hwithin₁⟩ := h.occupy htop hg hle
  obtain ⟨k, a₂, hmark, hregular₂, hwithin₂⟩ :=
    hregular₁.amend_carve (hwithin₁.top_eq ▸ htop)
  obtain ⟨a₃, habsorb, hswapped, hregular₃, hwithin₃, hzero⟩ :=
    hregular₂.absorb_carve (by rwa [hwithin₂.top_eq, hwithin₁.top_eq]) hfree hbehind
  obtain ⟨hlast, hend⟩ := h.last_unique hregular₃
  refine ⟨a₁, a₂, a₃, hoccupy, ⟨k, hmark⟩, habsorb, hswapped, hregular₁, hregular₂, hregular₃,
    hlast, hend, fun t ht i hi => ?_, hwithin₁, hwithin₂, hwithin₃⟩
  have hwithin := reheaded_restored hwithin₁ hwithin₂ hwithin₃ (fun j hlow hhigh => ?_) hzero
  · refine h.payload_eq hwithin (List.forall_mem_cons.mpr ⟨⟨s, h.mem, rfl⟩, fun off hoff => ?_⟩)
      ht hi
    obtain ⟨u, hu, rfl⟩ := Option.map_eq_some_iff.mp (Option.mem_toList.mp hoff)
    exact ⟨u, by simp [List.mem_of_mem_head? hu], rfl⟩
  · have hbyte := hclear (j - (s.offset + headerSize)) (by simp only [Segment.stop] at hhigh; omega)
    rwa [Nat.add_sub_cancel' hlow] at hbyte

end Regular

end Arena

/-! ## The heap between calls -/

namespace World

/-- In every world well-behaved clients lead to, the heap follows the rules. -/
theorem Reachable.regular {w : World} (h : w.Reachable) :
    w.machine.arena.Regular w.machine.arena.walk.segments := by
  obtain ⟨bs, hheld⟩ := h.held
  obtain ⟨ss, hstrung, -, hreach, hprev⟩ := hheld.served.strung
  rw [hstrung.walk]
  exact hstrung.regular hreach hprev

/-- Part of the gap between two blocks is taken into use and given back. -/
theorem reverts_smallGap :
    smallGap.machine.arena.Regular ([gapFirst] ++ gapSecond :: [gapThird, gapTail]) ∧
      gapSecond.split? 32 = some 272 ∧
      ∃ a₁ a₂ a₃,
        smallGap.machine.arena.Reverts [gapFirst] gapSecond [gapThird, gapTail] 32 a₁ a₂ a₃ := by
  have hregular : smallGap.machine.arena.Regular
      ([gapFirst] ++ gapSecond :: [gapThird, gapTail]) := by
    have hregular := reachable_smallGap.regular
    rwa [segments_smallGap] at hregular
  exact ⟨hregular, by decide, hregular.reverts (by decide +kernel) rfl (by decide +kernel)
    (by decide) (by decide)⟩

end World

end GuardedHeap
