/-
  Proofs/Damage/Lockstep.lean --- edits do not notice a guard they do not look at.

  WHAT THIS FILE IS FOR.  An operation on a damaged heap is compared with the same
  operation on the intact one, step by step.  `Alike` says that the second run returns
  whatever the first one does and that the two states belong together afterwards, as
  they did before.

  WHAT IS PROVED.  Every edit of an arena runs alike with and without some guards as
  long as it reads and writes apart from them, and so does trimming the end of a row.
-/
import GuardedHeap.Proofs.Damage

set_option autoImplicit false

namespace GuardedHeap

/-! ## Two runs -/

/-- Whatever `x` returns from the state `s`, `y` returns from `t`, and the states they
leave are related. -/
def Alike {σ α : Type} (R : σ → σ → Prop) (x y : EStateM Fault σ α) (s t : σ) : Prop :=
  ∀ r s', x s = .ok r s' → ∃ t', y t = .ok r t' ∧ R s' t'

namespace Alike

variable {σ α β : Type} {R : σ → σ → Prop} {s t : σ}

theorem of_ok {x y : EStateM Fault σ α} {s' t' : σ} {r : α} (hx : x s = .ok r s')
    (hy : y t = .ok r t') (hR : R s' t') : Alike R x y s t := by
  intro q u h
  rw [hx] at h
  cases h
  exact ⟨t', hy, hR⟩

theorem of_error {x y : EStateM Fault σ α} {s' : σ} {e : Fault} (hx : x s = .error e s') :
    Alike R x y s t := by
  intro q u h
  rw [hx] at h
  cases h

theorem pure (h : R s t) (r : α) : Alike R (pure r) (pure r) s t := of_ok rfl rfl h

/-- Programs run alike one after the other. -/
theorem bind {x y : EStateM Fault σ α} {f g : α → EStateM Fault σ β} (h : Alike R x y s t)
    (hf : ∀ r s' t', x s = .ok r s' → R s' t' → Alike R (f r) (g r) s' t') :
    Alike R (x >>= f) (y >>= g) s t := by
  intro q u hrun
  cases hx : x s with
  | error e s' =>
    rw [run_bind_error hx] at hrun
    cases hrun
  | ok r s' =>
    rw [run_bind_ok hx] at hrun
    obtain ⟨t', hy, hR⟩ := h r s' hx
    rw [run_bind_ok hy]
    exact hf r s' t' hx hR q u hrun

theorem bind_run {x y : EStateM Fault σ α} {f g : α → EStateM Fault σ β} {r : α} {s' : σ}
    (hx : x s = .ok r s') (h : Alike R x y s t)
    (hf : ∀ t', R s' t' → Alike R (f r) (g r) s' t') : Alike R (x >>= f) (y >>= g) s t := by
  refine h.bind fun q u t' hq hR => ?_
  rw [hx] at hq
  cases hq
  exact hf t' hR

theorem bind_get {f g : σ → EStateM Fault σ β} (h : Alike R (f s) (g t) s t) :
    Alike R (get >>= f) (get >>= g) s t := h

theorem bind_lift {e : Except Fault α} {f g : α → EStateM Fault σ β}
    (h : ∀ r, e = .ok r → Alike R (f r) (g r) s t) :
    Alike R (liftM e >>= f) (liftM e >>= g) s t := by
  cases e with
  | error e => exact of_error (run_bind_error (run_lift_error e s))
  | ok r => exact h r rfl

end Alike

namespace Arena

variable {lost : List Nat} {guard : Nat → Nat} {a a' : Arena}

/-! ## Single changes -/

/-- The same change of both memories keeps them related where it does not reach the
guards. -/
theorem Overwritten.edit (h : a.Overwritten lost guard a') {off len : Nat} {m m' : Memory}
    (hsame : ∀ i, a'.memory.get i = a.memory.get i → m'.get i = m.get i)
    (hout : ∀ i, i < off ∨ off + len ≤ i → m'.get i = a'.memory.get i)
    (hap : Apart lost off len) :
    Overwritten lost guard { a with memory := m } { a' with memory := m' } where
  window_eq := h.window_eq
  top_eq := h.top_eq
  last_eq := h.last_eq
  guardAt_eq l hl := by
    have hl' := hap l hl
    refine Eq.trans (Header.guardAt_congr fun i h1 h2 => hout i ?_) (h.guardAt_eq l hl)
    omega
  other := h.other
  kept i hi := hsame i (h.kept i hi)

theorem alike_writeHeader (h : a.Overwritten lost guard a') {off : Nat}
    (hap : Apart lost off headerSize) (k : Header) :
    Alike (Overwritten lost guard) (writeHeader off k) (writeHeader off k) a a' :=
  .of_ok rfl rfl (h.edit (fun _ hi => Header.get_store_congr off k hi)
    (fun _ hi => Header.get_store_of_outside k hi) hap)

theorem alike_clear (h : a.Overwritten lost guard a') {off len : Nat} (hap : Apart lost off len) :
    Alike (Overwritten lost guard) (clear off len) (clear off len) a a' := by
  refine .of_ok rfl rfl (h.edit (fun i hi => ?_) (fun i hi => ?_) hap)
  · rw [Memory.get_zero, Memory.get_zero, hi]
  · rw [Memory.get_zero, if_neg (by omega)]

/-- Copying reads and writes apart from the guards. -/
theorem alike_copyBytes (h : a.Overwritten lost guard a') {src dst len : Nat}
    (hsrc : Apart lost src len) (hdst : Apart lost dst len) :
    Alike (Overwritten lost guard) (copyBytes src dst len) (copyBytes src dst len) a a' := by
  refine .of_ok rfl rfl (h.edit (fun i hi => ?_) (fun i hi => ?_) hdst)
  · rw [Memory.get_copy, Memory.get_copy, hi]
    split
    · exact h.agree hsrc _ (by omega) (by omega)
    · rfl
  · rw [Memory.get_copy, if_neg (by omega)]

theorem alike_setLast (h : a.Overwritten lost guard a') (off : Nat) :
    Alike (Overwritten lost guard) (setLast off) (setLast off) a a' :=
  .of_ok rfl rfl ⟨h.window_eq, h.top_eq, rfl, h.guardAt_eq, h.other, h.kept⟩

theorem alike_setTop (h : a.Overwritten lost guard a') (top : Nat) :
    Alike (Overwritten lost guard) (setTop top) (setTop top) a a' :=
  .of_ok rfl rfl ⟨h.window_eq, rfl, h.last_eq, h.guardAt_eq, h.other, h.kept⟩

theorem alike_clearPayload (h : a.Overwritten lost guard a') {off len : Nat}
    (hap : Apart lost (off + headerSize) len) :
    Alike (Overwritten lost guard) (clearPayload off len) (clearPayload off len) a a' := by
  unfold clearPayload
  refine .bind_lift fun start hstart => ?_
  rw [← (Word.add_eq_ok.mp hstart).1]
  exact alike_clear h hap

theorem alike_amend (h : a.Overwritten lost guard a') {off : Nat}
    (hap : Apart lost off headerSize) (f : Header → Header) :
    Alike (Overwritten lost guard) (amend off f) (amend off f) a a' := by
  unfold amend
  refine .bind_get ?_
  rw [h.read_eq hap]
  refine .bind_lift fun k _ => .bind (alike_writeHeader h hap (f k)) ?_
  intro _ b b' _ hR
  exact .pure hR (f k)

/-! ## Splitting and merging -/

/-- A header looks at nothing behind it but the header its link leads to. -/
theorem Overwritten.successorSegment_eq (h : a.Overwritten lost guard a') (off : Nat) {k : Header}
    (hap : ∀ q, k.next = some q → Apart lost q headerSize) :
    a'.successorSegment off k = a.successorSegment off k := by
  unfold successorSegment
  rw [h.successor_eq]
  cases hs : a.successor off k with
  | error e => rfl
  | ok next =>
    cases next with
    | none => rfl
    | some q =>
      simp only [bind, Except.bind]
      rw [h.read_eq (hap q (successor_eq_some hs).1)]

theorem offset_of_successorSegment {off : Nat} {k : Header} {s : Segment}
    (h : a.successorSegment off k = .ok (some s)) : k.next = some s.offset :=
  (successor_eq_some (successorSegment_eq_some h).1).1

theorem alike_linkBack (h : a.Overwritten lost guard a') {next : Option Segment}
    (hap : ∀ s, next = some s → Apart lost s.offset headerSize) (off : Nat) :
    Alike (Overwritten lost guard) (linkBack next off) (linkBack next off) a a' := by
  cases next with
  | none => exact alike_setLast h off
  | some s => exact alike_writeHeader h (hap s rfl) _

/-- A merge looks at both headers and at the one behind them. -/
theorem alike_join (h : a.Overwritten lost guard a') {low high : Segment}
    (hlow : Apart lost low.offset headerSize) (hhigh : Apart lost high.offset headerSize)
    (hnext : ∀ q, high.header.next = some q → Apart lost q headerSize) :
    Alike (Overwritten lost guard) (join low high) (join low high) a a' := by
  unfold join
  refine .bind_get ?_
  by_cases hneighbor : low.header.next ≠ some high.offset
  · rw [if_pos hneighbor, if_pos hneighbor]
    exact .of_error rfl
  · rw [if_neg hneighbor, if_neg hneighbor, h.successorSegment_eq _ hnext, h.last_eq]
    refine .bind_lift fun next hsucc => ?_
    by_cases hmissing : next.isNone ∧ high.offset ≠ a.last
    · rw [if_pos hmissing, if_pos hmissing]
      exact .of_error rfl
    · rw [if_neg hmissing, if_neg hmissing]
      have hback : ∀ s, next = some s → Apart lost s.offset headerSize := by
        rintro s rfl
        exact hnext _ (offset_of_successorSegment hsucc)
      refine .bind (alike_linkBack h hback low.offset) fun _ b b' _ hb => ?_
      refine .bind_lift fun gained _ => .bind_lift fun size _ => ?_
      refine .bind (alike_writeHeader hb hlow _) fun _ c c' _ hc => ?_
      refine .bind (alike_clear hc hhigh) fun _ d d' _ hd => ?_
      exact .pure hd low.offset

/-- Merging with a neighbor looks at what lies behind the higher one only if the neighbor
is free. -/
theorem alike_absorb (h : a.Overwritten lost guard a') {keep other : Nat}
    (hkeep : Apart lost keep headerSize) (hother : Apart lost other headerSize)
    (hbehind : ∀ kept taken, a.read keep = .ok kept → a.read other = .ok taken →
      taken.used = false → ∀ q, (if other < keep then kept else taken).next = some q →
        Apart lost q headerSize) :
    Alike (Overwritten lost guard) (absorb keep (some other)) (absorb keep (some other)) a a' := by
  unfold absorb
  refine .bind_get ?_
  rw [h.read_eq hkeep, h.read_eq hother]
  refine .bind_lift fun kept hkept => .bind_lift fun taken htaken => ?_
  have hnext := hbehind kept taken hkept htaken
  cases hu : taken.used with
  | true =>
    rw [if_pos rfl]
    exact .pure h keep
  | false =>
    rw [if_neg Bool.false_ne_true]
    by_cases hlt : other < keep
    · rw [if_pos hlt]
      rw [if_pos hlt] at hnext
      exact alike_join h hother hkeep (hnext hu)
    · rw [if_neg hlt]
      rw [if_neg hlt] at hnext
      exact alike_join h hkeep hother (hnext hu)

/-- Taking a segment into use looks at the header behind it and writes inside it. -/
theorem alike_occupy (h : a.Overwritten lost guard a') {off : Nat} (size : Nat) {k : Header}
    (hread : a.read off = .ok k) (hap : Apart lost off (headerSize + k.size))
    (hnext : ∀ q, k.next = some q → Apart lost q headerSize) :
    Alike (Overwritten lost guard) (occupy off size) (occupy off size) a a' := by
  have hhead : Apart lost off headerSize := hap.mono (Nat.le_refl _) (by omega)
  unfold occupy
  refine .bind_get ?_
  rw [h.read_eq hhead, hread]
  refine .bind_lift fun k' hk => ?_
  cases hk
  dsimp only
  by_cases hgran : size % granule ≠ 0
  · rw [if_pos hgran, if_pos hgran]
    exact .of_error rfl
  · rw [if_neg hgran, if_neg hgran]
    by_cases hsmall : k.size < size
    · rw [if_pos hsmall, if_pos hsmall]
      exact .of_error rfl
    · rw [if_neg hsmall, if_neg hsmall, h.successorSegment_eq _ hnext]
      refine .bind_lift fun next hsucc => ?_
      by_cases hsplit : headerSize < k.size - size
      · simp only [if_pos hsplit]
        refine .bind_lift fun payload hpayload => .bind_lift fun split hstop => ?_
        have hplace : split = off + headerSize + size := by
          rw [← (Word.add_eq_ok.mp hstop).1, ← (Word.add_eq_ok.mp hpayload).1]
        have hback : ∀ s, next = some s → Apart lost s.offset headerSize := by
          rintro s rfl
          exact hnext _ (offset_of_successorSegment hsucc)
        have hrest : Apart lost split headerSize := hap.mono (by omega) (by omega)
        refine .bind (alike_writeHeader h hrest _) fun _ b b' _ hb => ?_
        refine .bind (alike_linkBack hb hback split) fun _ c c' _ hc => ?_
        refine .bind (alike_writeHeader hc hhead _) fun _ d d' _ hd => ?_
        exact .pure hd (some split)
      · simp only [if_neg hsplit]
        refine .bind (alike_writeHeader h hhead _) fun _ b b' _ hb => ?_
        exact .pure hb none

end Arena

/-! ## Releasing a block -/

theorem Apart.header {lost : List Nat} {off : Nat} {b : Block} (h : Apart lost off b.extent) :
    Apart lost off headerSize :=
  h.mono (Nat.le_refl _) (by simp only [Block.extent]; omega)

theorem Apart.append {lost : List Nat} {off len len' : Nat} (h : Apart lost off len)
    (h' : Apart lost (off + len) len') : Apart lost off (len + len') := by
  intro l hl
  have h1 := h l hl
  have h2 := h' l hl
  omega

/-- The last block of a row kept its guard, and so did the one before if the last one is
free. -/
structure ClearBack (lost : List Nat) (pre : List Block) : Prop where
  prev : ∀ front p, pre = front ++ [p] → Apart lost (span front) p.extent
  before : ∀ front o p, pre = front ++ [o] ++ [p] → p.used = false →
    Apart lost (span front) o.extent

/-- The first block of a row that starts at an offset kept its guard, and so did the
second if the first one is free. -/
structure ClearAhead (lost : List Nat) (off : Nat) (post : List Block) : Prop where
  next : ∀ y rest, post = y :: rest → Apart lost off y.extent
  after : ∀ y z rest, post = y :: z :: rest → y.used = false →
    Apart lost (off + y.extent) z.extent

/-- All blocks that giving a block back depends on kept their guards. -/
structure Clearance (lost : List Nat) (pre : List Block) (b : Block) (post : List Block) :
    Prop where
  own : Apart lost (span pre) b.extent
  back : ClearBack lost pre
  ahead : ClearAhead lost (span pre + b.extent) post

section Merging

variable {lost : List Nat} {pre post front back : List Block} {b c : Block}

theorem ClearAhead.merged {off len extent : Nat} (h : ClearAhead lost (off + len) post)
    (hown : Apart lost off len) (hahead : MergedAhead post back)
    (hspan : extent + span back = len + span post) : Apart lost off extent := by
  rcases hahead with rfl | ⟨y, rfl, -⟩
  · rw [show extent = len by omega]
    exact hown
  · rw [span_cons] at hspan
    rw [show extent = len + y.extent by omega]
    exact hown.append (h.next y back rfl)

/-- The merged block was not hit, nor was the one in front of it. -/
theorem Clearance.merged (h : Clearance lost pre b post) (hback : MergedBack pre front)
    (hahead : MergedAhead post back)
    (hspan : span (front ++ c :: back) = span (pre ++ b :: post)) :
    Apart lost (span front) c.extent ∧
      ∀ xs o, front = xs ++ [o] → Apart lost (span xs) o.extent := by
  have hlow : ∃ len, span front + len = span pre + b.extent ∧ Apart lost (span front) len := by
    rcases hback with rfl | ⟨p, rfl, -⟩
    · exact ⟨_, rfl, h.own⟩
    · have hp := h.back.prev front p rfl
      have hown := h.own
      rw [span_concat] at hown ⊢
      exact ⟨_, (Nat.add_assoc _ _ _).symm, hp.append hown⟩
  obtain ⟨len, hlen, hap⟩ := hlow
  constructor
  · rw [span_append, span_append, span_cons, span_cons] at hspan
    exact ClearAhead.merged (hlen ▸ h.ahead) hap hahead (by omega)
  · rintro xs o rfl
    rcases hback with hfront | ⟨p, rfl, hp⟩
    · exact h.back.prev xs o hfront.symm
    · exact h.back.before xs o p rfl hp

/-- Blocks that lost their guards are where they were. -/
theorem Clearance.kept (h : Clearance lost pre b post) (hback : MergedBack pre front)
    (hahead : MergedAhead post back)
    (hspan : span (front ++ c :: back) = span (pre ++ b :: post)) (floor : Nat)
    {x : Nat × Block} (hx : x ∈ places 0 (pre ++ b :: post)) (hl : x.1 ∈ lost) :
    x ∈ places 0 (trimmed floor front c back) := by
  obtain ⟨off, d⟩ := x
  have hno : ∀ {place : Nat} {e : Block}, Apart lost place e.extent → (off, d) ≠ (place, e) := by
    intro place e hap heq
    cases heq
    have hpos := d.extent_pos
    have := hap off hl
    omega
  have hfront : (off, d) ∈ places 0 pre → (off, d) ∈ places 0 front := by
    intro hmem
    rcases hback with rfl | ⟨p, rfl, -⟩
    · exact hmem
    · rw [places_append, Nat.zero_add, List.mem_append] at hmem
      refine hmem.resolve_right fun hp => ?_
      exact hno (h.back.prev front p rfl) (List.mem_singleton.mp hp)
  have hbehind : (off, d) ∈ places (span pre + b.extent) post →
      (off, d) ∈ places (span front + c.extent) back := by
    rw [span_append, span_append, span_cons, span_cons] at hspan
    intro hmem
    rcases hahead with rfl | ⟨y, rfl, -⟩
    · rwa [show span front + c.extent = span pre + b.extent by omega]
    · rw [span_cons] at hspan
      rw [show span front + c.extent = span pre + b.extent + y.extent by omega]
      refine (List.mem_cons.mp hmem).resolve_left fun hy => ?_
      exact hno (h.ahead.next y back rfl) hy
  rw [places_append, Nat.zero_add, places, List.mem_append, List.mem_cons] at hx
  have hparts : (off, d) ∈ places 0 front ∨ (off, d) ∈ places (span front + c.extent) back := by
    rcases hx with hx | hx | hx
    · exact Or.inl (hfront hx)
    · exact absurd hx (hno h.own)
    · exact Or.inr (hbehind hx)
  unfold trimmed
  by_cases hne : back = []
  · subst hne
    have hmem := hparts.resolve_right List.not_mem_nil
    rw [if_neg fun hne => hne rfl]
    split
    · exact hmem
    · split
      · exact places_append 0 front _ ▸ List.mem_append_left _ hmem
      · exact places_append 0 front _ ▸ List.mem_append_left _ hmem
  · rw [if_pos hne, places_append, Nat.zero_add]
    rcases hparts with hmem | hmem
    · exact List.mem_append_left _ hmem
    · exact List.mem_append_right _ (List.mem_cons_of_mem _ hmem)

end Merging

namespace Arena

variable {lost : List Nat} {guard : Nat → Nat} {a a' : Arena} {pre post : List Block} {b : Block}

/-- Merging with what comes before looks at what follows. -/
theorem Lists.alike_absorb_prev (hl : a.Lists (pre ++ b :: post))
    (h : a.Overwritten lost guard a') (hc : Clearance lost pre b post) :
    Alike (Overwritten lost guard) (absorb (span pre) (lastLink none 0 pre))
      (absorb (span pre) (lastLink none 0 pre)) a a' := by
  rcases List.eq_nil_or_concat pre with rfl | ⟨front, p, rfl⟩
  · exact .pure h _
  · rw [List.concat_eq_append] at *
    rw [lastLink_concat, Nat.zero_add]
    refine alike_absorb h hc.own.header (hc.back.prev front p rfl).header ?_
    intro kept taken hkept htaken _ q hq
    rw [hl.read] at hkept
    cases hkept
    have hlow : span front < span (front ++ [p]) := by
      have hpos := p.extent_pos
      rw [span_concat]
      omega
    rw [if_pos hlow] at hq
    cases post with
    | nil => cases hq
    | cons y rest =>
      cases hq
      exact (hc.ahead.next y rest rfl).header

/-- Merging with what follows looks at what lies behind it. -/
theorem Lists.alike_absorb_next (hl : a.Lists (pre ++ b :: post))
    (h : a.Overwritten lost guard a') (hown : Apart lost (span pre) b.extent)
    (hahead : ClearAhead lost (span pre + b.extent) post) :
    Alike (Overwritten lost guard) (absorb (span pre) (firstLink (span pre + b.extent) post none))
      (absorb (span pre) (firstLink (span pre + b.extent) post none)) a a' := by
  cases post with
  | nil => exact .pure h _
  | cons y rest =>
    refine alike_absorb h hown.header (hahead.next y rest rfl).header ?_
    intro kept taken hkept htaken hfree q hq
    have hother := (concat_iff.mpr hl).read
    rw [span_concat] at hother
    rw [hother] at htaken
    cases htaken
    rw [if_neg (Nat.not_lt.mpr (Nat.le_add_right _ _))] at hq
    cases rest with
    | nil => cases hq
    | cons z rest =>
      rw [Block.headerIn, firstLink_cons, Block.header_next, Option.some.injEq, span_concat] at hq
      subst hq
      exact (hahead.after y z rest rfl hfree).header

/-- Where the block and what is free on either side of it were not hit, the merge does
not notice what was. -/
theorem Lists.alike_merge (hl : a.Lists (pre ++ b :: post)) (ht : Tidy (pre ++ b :: post))
    (hu : b.used = true) (h : a.Overwritten lost guard a') (hc : Clearance lost pre b post)
    (site : CallSite) :
    Alike (Overwritten lost guard)
      (do
        let _ ← Arena.amend (span pre) fun h => { h with used := false }
        let off ← Arena.absorb (span pre) (lastLink none 0 pre)
        let off ← Arena.absorb off (firstLink (span pre + b.extent) post none)
        let h ← Arena.amend off fun h => { h with freedAt := some site }
        Arena.clearPayload off h.size
        return off)
      (do
        let _ ← Arena.amend (span pre) fun h => { h with used := false }
        let off ← Arena.absorb (span pre) (lastLink none 0 pre)
        let off ← Arena.absorb off (firstLink (span pre + b.extent) post none)
        let h ← Arena.amend off fun h => { h with freedAt := some site }
        Arena.clearPayload off h.size
        return off) a a' := by
  obtain ⟨hpre, hpost⟩ := (tidy_used hu).mp ht
  obtain ⟨front, y, hback, hy, -, hspan, -, hmergedBack⟩ :=
    exists_mergeBack (x := { b with used := false }) hpre rfl
  obtain ⟨z, back, hahead, -, -, -, hmergedAhead, -⟩ := exists_mergeAhead hpost hy
  have hstop : span front + y.extent = span pre + b.extent := hspan
  obtain ⟨a₁, hrun₁, hlists₁, hin₁⟩ := hl.amend (c := { b with used := false })
    (f := fun h => { h with used := false }) (fun prev next => rfl) rfl rfl
  refine .bind_run hrun₁ (alike_amend h hc.own.header _) fun a₁' h₁ => ?_
  obtain ⟨a₂, hrun₂, hlists₂, hin₂⟩ := hlists₁.absorb_prev
  refine .bind_run hrun₂ (hlists₁.alike_absorb_prev h₁ ⟨hc.own, hc.back, hc.ahead⟩) fun a₂' h₂ => ?_
  rw [hback] at hlists₂ ⊢
  have hown := (hc.merged (c := y) hmergedBack (Or.inl rfl) (by
    rw [span_append, span_append, span_cons, span_cons]
    omega)).1
  have hclear := hc.ahead
  rw [← hstop] at hclear ⊢
  obtain ⟨a₃, hrun₃, hlists₃, hin₃⟩ := Lists.absorb_next hlists₂
  refine .bind_run hrun₃ (Lists.alike_absorb_next hlists₂ h₂ hown hclear) fun a₃' h₃ => ?_
  rw [hahead] at hlists₃
  have hmerged := (hc.merged (c := z) hmergedBack hmergedAhead (by
    rw [← hlists₃.top_eq, ← hl.top_eq, hin₃.top_eq, hin₂.top_eq, hin₁.top_eq])).1
  obtain ⟨a₄, hrun₄, hlists₄, -⟩ := hlists₃.amend (c := { z with freedAt := some site })
    (f := fun h => { h with freedAt := some site }) (fun prev next => rfl) rfl rfl
  refine .bind_run hrun₄ (alike_amend h₃ hmerged.header _) fun a₄' h₄ => ?_
  have he : z.extent = headerSize + z.size := rfl
  have hpayload : Apart lost (span front + headerSize) z.size :=
    hmerged.mono (by omega) (by omega)
  refine .bind (alike_clearPayload h₄ hpayload) fun _ a₅ a₅' _ h₅ => ?_
  exact .pure h₅ (span front)

end Arena

/-! ## Whole machines -/

namespace Machine

/-- A machine beside one with a damaged arena.  Their journals may differ. -/
structure Marred (lost : List Nat) (guard : Nat → Nat) (m n : Machine) : Prop where
  arena : m.arena.Overwritten lost guard n.arena
  rest : n = { m with arena := n.arena, journal := n.journal }

variable {lost : List Nat} {guard : Nat → Nat} {m n : Machine}

theorem alike_onArena {α : Type} {x y : ArenaM α} (h : m.Marred lost guard n)
    (hx : Alike (Arena.Overwritten lost guard) x y m.arena n.arena) :
    Alike (Marred lost guard) (onArena x) (onArena y) m n := by
  intro r m' hrun
  unfold onArena at hrun
  cases hrun' : x m.arena with
  | error e a =>
    rw [hrun'] at hrun
    cases hrun
  | ok q a =>
    rw [hrun'] at hrun
    cases hrun
    obtain ⟨a', hy, hR⟩ := hx r a hrun'
    exact ⟨{ n with arena := a' }, run_onArena_ok hy, hR,
      congrArg (fun k => { k with arena := a' }) h.rest⟩

/-- Pages go as they would without the damage. -/
theorem Marred.withoutPage (h : m.Marred lost guard n) (index : Nat) :
    Marred lost guard (m.withoutPage index) (n.withoutPage index) := by
  obtain ⟨a, j, rfl⟩ : ∃ a j, n = { m with arena := a, journal := j } := ⟨_, _, h.rest⟩
  refine ⟨h.arena, ?_⟩
  have hwindow : a.window = m.arena.window := h.arena.window_eq
  have hpage : pageNumber { m with arena := a, journal := j } index = m.pageNumber index := by
    show pageOf a.window.base + index = pageOf m.arena.window.base + index
    rw [hwindow]
  unfold Machine.withoutPage
  rw [hpage]
  rfl

theorem alike_unmapPages (h : m.Marred lost guard n) (stop count : Nat) :
    Alike (Marred lost guard) (unmapPages .none stop count) (unmapPages .none stop count) m n := by
  induction count generalizing m n stop with
  | zero => exact .pure h ()
  | succ count ih =>
    intro r m' hrun
    have hnumber : n.pageNumber? (stop - 1) = m.pageNumber? (stop - 1) := by
      unfold pageNumber?
      rw [h.arena.window_eq]
    cases hpage : m.pageNumber? (stop - 1) with
    | error e =>
      rw [unmapPages, run_bind_ok (run_get m), hpage, run_bind_error (run_lift_error _ _)] at hrun
      cases hrun
    | ok page =>
      obtain rfl : page = m.pageNumber (stop - 1) := (Word.add_eq_ok.mp hpage).1.symm
      have hpage' : n.pageNumber? (stop - 1) = .ok (n.pageNumber (stop - 1)) := by
        rw [hnumber, hpage]
        unfold pageNumber
        rw [h.arena.window_eq]
      rw [run_unmapPages_succ hpage] at hrun
      rw [run_unmapPages_succ hpage']
      exact ih (h.withoutPage (stop - 1)) (stop - 1) r m' hrun

/-- The top comes down over what was not hit. -/
theorem alike_moveTop (h : m.Marred lost guard n) {newTop : Nat} (hle : newTop ≤ m.arena.top)
    (hap : Apart lost newTop (m.arena.top - newTop)) :
    Alike (Marred lost guard) (moveTop .none newTop) (moveTop .none newTop) m n := by
  have hpages : ¬ pagesBelow m.arena.top < pagesBelow newTop := by
    simp only [pagesBelow, pageSize]
    omega
  have hend : ∀ {m' n' : Machine}, m'.Marred lost guard n' → ∀ top : Nat,
      Alike (Marred lost guard) (do
          onArena (Arena.setTop newTop)
          return top : HeapM Nat) (do
          onArena (Arena.setTop newTop)
          return top) m' n' := by
    intro m' n' hR top
    refine .bind (alike_onArena hR (Arena.alike_setTop hR.arena newTop)) fun _ _ _ _ hR' => ?_
    exact .pure hR' top
  unfold moveTop
  refine .bind_get ?_
  rw [h.arena.top_eq, h.arena.window_eq]
  dsimp only
  by_cases habove : m.arena.window.ceiling < newTop
  · rw [if_pos habove]
    exact .of_error rfl
  · rw [if_neg habove]
    by_cases hbelow : newTop < m.arena.window.floor
    · rw [if_pos hbelow]
      exact .of_error rfl
    · rw [if_neg hbelow, if_neg hpages]
      by_cases hlower : newTop < m.arena.top
      · rw [if_pos hlower]
        refine .bind (alike_onArena h (Arena.alike_clear h.arena hap)) fun _ m₁ n₁ _ h₁ => ?_
        refine .bind (alike_unmapPages h₁ _ _) fun _ m₂ n₂ _ h₂ => ?_
        exact hend h₂ _
      · rw [if_neg hlower]
        refine .bind (alike_unmapPages h _ _) fun _ m₂ n₂ _ h₂ => ?_
        exact hend h₂ _

/-- The end of a row is trimmed alike where neither the last block was hit nor the one in
front of it. -/
theorem alike_trim {pre post : List Block} {c : Block} (hl : m.arena.Lists (pre ++ c :: post))
    (h : m.Marred lost guard n) (hown : Apart lost (span pre) c.extent)
    (hprev : ∀ xs o, pre = xs ++ [o] → Apart lost (span xs) o.extent) :
    Alike (Marred lost guard) (trim .none (span pre)) (trim .none (span pre)) m n := by
  have he : c.extent = headerSize + c.size := rfl
  unfold trim
  refine .bind_get ?_
  dsimp only
  rw [h.arena.last_eq]
  by_cases hlast : span pre = m.arena.last
  · have hpost : post = [] := Classical.byContradiction fun hne => hl.ne_last hne hlast
    subst hpost
    have htop : m.arena.top = span pre + c.extent := by
      rw [hl.top_eq, span_concat]
    rw [if_pos hlast, if_pos hlast, h.arena.read_eq hown.header, hl.read, h.arena.window_eq]
    refine .bind_lift fun k hk => ?_
    cases hk
    cases hu : (c.headerIn pre []).used with
    | true => exact .of_error rfl
    | false =>
      rw [if_neg Bool.false_ne_true, if_neg Bool.false_ne_true]
      by_cases hremove : span pre ≠ 0 ∧ m.arena.window.floor ≤ span pre
      · rw [if_pos hremove, if_pos hremove, h.arena.predecessor_eq, hl.predecessor]
        refine .bind_lift fun link hlink => ?_
        cases hlink
        obtain ⟨xs, o, rfl⟩ : ∃ xs o, pre = xs ++ [o] := by
          rcases List.eq_nil_or_concat pre with rfl | ⟨xs, o, rfl⟩
          · exact absurd rfl hremove.1
          · exact ⟨xs, o, List.concat_eq_append⟩
        have hprevious := hprev xs o rfl
        rw [lastLink_concat, Nat.zero_add]
        dsimp only
        rw [h.arena.read_eq hprevious.header]
        refine .bind_lift fun before _ => ?_
        refine .bind_run rfl (alike_onArena h (.bind
          (Arena.alike_writeHeader h.arena hprevious.header _) fun _ b b' _ hb =>
            Arena.alike_setLast hb (span xs))) fun n₁ h₁ => ?_
        refine .bind (alike_moveTop h₁ ?_ ?_) fun _ _ _ _ h₂ => .pure h₂ ()
        · show span (xs ++ [o]) ≤ m.arena.top
          omega
        · show Apart lost (span (xs ++ [o])) (m.arena.top - span (xs ++ [o]))
          exact hown.mono (Nat.le_refl _) (by omega)
      · rw [if_neg hremove, if_neg hremove, hl.word_payload]
        refine .bind_lift fun payload hpayload => ?_
        cases hpayload
        rw [hl.word_stop]
        refine .bind_lift fun stop hstop => ?_
        cases hstop
        by_cases hcut : m.arena.window.floor < span pre + c.extent
        · rw [if_pos hcut]
          refine .bind_run rfl (alike_onArena h (Arena.alike_writeHeader h.arena hown.header _))
            fun n₁ h₁ => ?_
          refine .bind (alike_moveTop h₁ ?_ ?_) fun _ _ _ _ h₂ => .pure h₂ ()
          · show span pre + headerSize + (m.arena.window.floor - (span pre + headerSize)) ≤
              m.arena.top
            omega
          · show Apart lost
              (span pre + headerSize + (m.arena.window.floor - (span pre + headerSize)))
              (m.arena.top -
                (span pre + headerSize + (m.arena.window.floor - (span pre + headerSize))))
            exact hown.mono (by omega) (by omega)
        · rw [if_neg hcut]
          exact .pure h ()
  · rw [if_neg hlast, if_neg hlast]
    exact .pure h ()

end Machine

end GuardedHeap
