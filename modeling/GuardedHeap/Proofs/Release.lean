/-
  Proofs/Release.lean --- giving a block back.

  WHAT THIS FILE IS FOR.  A block that is released becomes free, merges with the
  free blocks on either side, is cleared and marked, and the end of the row is
  trimmed.  All headers these steps will touch are read first.

  WHAT IS PROVED.  Releasing a live block of a sound heap always succeeds, the
  final audit included.  The heap is sound afterwards, and its live blocks are
  those there were without the released one.
-/
import GuardedHeap.Proofs.Records
import GuardedHeap.Proofs.Sound

set_option autoImplicit false

namespace GuardedHeap

namespace Machine

/-! ## The look at the neighbors -/

/-- The look at a neighbor, and at what its link leads to if it is free. -/
def lookAt (a : Arena) (follow : Nat → Header → Except Fault (Option Nat)) :
    Option Nat → Except Fault Unit
  | none => .ok ()
  | some off => do
    let h ← a.read off
    if h.used then .ok ()
    else
      match ← follow off h with
      | none => .ok ()
      | some beyond => do
        let _ ← a.read beyond
        .ok ()

/-- A look at a neighbor in the course of an operation. -/
theorem lookAt_bind (a : Arena) (follow : Nat → Header → Except Fault (Option Nat))
    (link : Option Nat) (rest : Unit → Except Fault Unit) :
    (lookAt a follow link >>= rest) = (match link with
      | some off => do
        let h ← a.read off
        if !h.used then do
          match ← follow off h with
          | some beyond => do
            let _ ← a.read beyond
            rest ()
          | _ => rest ()
        else rest ()
      | _ => rest () : Except Fault Unit) := by
  cases link with
  | none => rfl
  | some off =>
    unfold lookAt
    dsimp only
    cases a.read off with
    | error e => rfl
    | ok h =>
      simp only [bind, Except.bind]
      cases h.used with
      | true => rfl
      | false =>
        cases follow off h with
        | error e => rfl
        | ok next =>
          cases next with
          | none => rfl
          | some beyond =>
            simp only
            cases a.read beyond with
            | error e => rfl
            | ok k => rfl

theorem inspectNeighbors_eq (a : Arena) (prev next : Option Nat) :
    inspectNeighbors a prev next = (do
      lookAt a a.predecessor prev
      lookAt a a.successor next) := by
  have hahead : lookAt a a.successor next = (lookAt a a.successor next >>= pure) :=
    (bind_pure _).symm
  rw [hahead, lookAt_bind, lookAt_bind]
  rfl

/-- The look finds nothing wrong where all that it reads can be read. -/
theorem lookAt_eq_ok {a : Arena} {follow : Nat → Header → Except Fault (Option Nat)}
    {link : Option Nat} (h : ∀ p, link = some p → ∃ k next, a.read p = .ok k ∧
      follow p k = .ok next ∧ ∀ q, next = some q → ∃ k', a.read q = .ok k') :
    lookAt a follow link = .ok () := by
  cases link with
  | none => rfl
  | some p =>
    obtain ⟨k, next, hread, hfollow, hbeyond⟩ := h p rfl
    unfold lookAt
    simp only [hread, bind, Except.bind]
    cases k.used with
    | true => rfl
    | false =>
      rw [hfollow]
      cases next with
      | none => rfl
      | some q =>
        obtain ⟨k', hk'⟩ := hbeyond q rfl
        simp only [hk']
        rfl

end Machine

namespace Arena.Lists

variable {a : Arena} {pre post : List Block} {b : Block}

/-- The block in front can be read, and the link that leads on from it too. -/
theorem exists_read_prev (h : a.Lists (pre ++ b :: post)) {p : Nat}
    (hp : lastLink none 0 pre = some p) :
    ∃ k link, a.read p = .ok k ∧ a.predecessor p k = .ok link ∧
      ∀ q, link = some q → ∃ k', a.read q = .ok k' := by
  obtain ⟨front, x, rfl⟩ : ∃ front x, pre = front ++ [x] := by
    rcases List.eq_nil_or_concat pre with rfl | ⟨front, x, rfl⟩
    · cases hp
    · exact ⟨front, x, List.concat_eq_append⟩
  rw [lastLink_concat, Nat.zero_add, Option.some.injEq] at hp
  subst hp
  have hx := concat_iff.mp h
  refine ⟨_, _, hx.read, hx.predecessor, ?_⟩
  intro q hq
  obtain ⟨front', y, rfl⟩ : ∃ front' y, front = front' ++ [y] := by
    rcases List.eq_nil_or_concat front with rfl | ⟨front', y, rfl⟩
    · cases hq
    · exact ⟨front', y, List.concat_eq_append⟩
  rw [lastLink_concat, Nat.zero_add, Option.some.injEq] at hq
  subst hq
  exact ⟨_, (concat_iff.mp hx).read⟩

/-- The block behind can be read, and the link that leads on from it too. -/
theorem exists_read_next (h : a.Lists (pre ++ b :: post)) {p : Nat}
    (hp : firstLink (span pre + b.extent) post none = some p) :
    ∃ k link, a.read p = .ok k ∧ a.successor p k = .ok link ∧
      ∀ q, link = some q → ∃ k', a.read q = .ok k' := by
  cases post with
  | nil => cases hp
  | cons x rest =>
    have hx := concat_iff.mpr h
    have hoff := span_concat pre b
    rw [firstLink_cons, Option.some.injEq] at hp
    subst hp
    rw [← hoff]
    refine ⟨_, _, hx.read, hx.successor, ?_⟩
    intro q hq
    cases rest with
    | nil => cases hq
    | cons y rest' =>
      have hy : a.Lists ((pre ++ [b] ++ [x]) ++ y :: rest') := by
        rw [List.append_assoc (pre ++ [b])]
        exact hx
      have hoff' : span (pre ++ [b] ++ [x]) = span (pre ++ [b]) + x.extent := by
        rw [span_append _ [x], span_cons, span_nil, Nat.add_zero]
      rw [firstLink_cons, Option.some.injEq] at hq
      subst hq
      rw [← hoff']
      exact ⟨_, hy.read⟩

theorem inspectNeighbors (h : a.Lists (pre ++ b :: post)) :
    Machine.inspectNeighbors a (lastLink none 0 pre)
      (firstLink (span pre + b.extent) post none) = .ok () := by
  rw [Machine.inspectNeighbors_eq, Machine.lookAt_eq_ok fun p hp => h.exists_read_prev hp,
    Machine.lookAt_eq_ok fun p hp => h.exists_read_next hp]
  rfl

end Arena.Lists

namespace Machine

/-- A released block merges with what is free on either side. -/
theorem exists_merged {m : Machine} {pre post : List Block} {b : Block} (site : CallSite)
    (hl : m.arena.Lists (pre ++ b :: post)) (ht : Tidy (pre ++ b :: post)) (hu : b.used = true) :
    ∃ front c back a,
      onArena (do
        let _ ← Arena.amend (span pre) fun h => { h with used := false }
        let off ← Arena.absorb (span pre) (lastLink none 0 pre)
        let off ← Arena.absorb off (firstLink (span pre + b.extent) post none)
        let h ← Arena.amend off fun h => { h with freedAt := some site }
        Arena.clearPayload off h.size
        return off) m = .ok (span front) { m with arena := a } ∧
      a.Lists (front ++ c :: back) ∧ m.arena.Inside a ∧
      (c.used = false ∧ c.freedAt = some site) ∧
      Tidy (front ++ c :: back) ∧ (MergedBack pre front ∧ MergedAhead post back) ∧
      live 0 (front ++ c :: back) = live 0 pre ++ live (span pre + b.extent) post := by
  obtain ⟨hpre, hpost⟩ := (tidy_used hu).mp ht
  -- the block as a free one, merged backwards and then ahead
  obtain ⟨front, y, hback, hy, hfront, hspan, hlive, hmergedBack⟩ :=
    exists_mergeBack (x := { b with used := false }) hpre rfl
  obtain ⟨z, back, hahead, hz, hrest, hlive', hmergedAhead, -⟩ := exists_mergeAhead hpost hy
  obtain ⟨a₁, hrun₁, hlists₁, hin₁⟩ := hl.amend (c := { b with used := false })
    (f := fun h => { h with used := false }) (fun prev next => rfl) rfl rfl
  obtain ⟨a₂, hrun₂, hlists₂, hin₂⟩ := hlists₁.absorb_prev
  rw [hback] at hrun₂ hlists₂
  have hstop : span front + y.extent = span pre + b.extent := hspan
  obtain ⟨a₃, hrun₃, hlists₃, hin₃⟩ := Arena.Lists.absorb_next hlists₂
  rw [hahead] at hlists₃
  rw [hstop] at hrun₃
  obtain ⟨a₄, hrun₄, hlists₄, hin₄⟩ := hlists₃.amend (c := { z with freedAt := some site })
    (f := fun h => { h with freedAt := some site }) (fun prev next => rfl) rfl rfl
  obtain ⟨a₅, hrun₅, hlists₅, hin₅⟩ := hlists₄.clearPayload
  have hfree : ({ z with freedAt := some site, bytes := fun _ => 0 } : Block).used = false := hz
  have hclear : ({ z with freedAt := some site, bytes := fun _ => 0 } : Block).Clear :=
    fun _ _ _ => rfl
  refine ⟨front, { z with freedAt := some site, bytes := fun _ => 0 }, back, a₅,
    run_onArena_ok ?_, hlists₅, (((hin₁.trans hin₂).trans hin₃).trans hin₄).trans hin₅,
    ⟨hfree, rfl⟩, (tidy_free hfree).mpr ⟨hfront, hclear, hrest⟩, ⟨hmergedBack, hmergedAhead⟩, ?_⟩
  · rw [run_bind_ok hrun₁, run_bind_ok hrun₂, run_bind_ok hrun₃, run_bind_ok hrun₄]
    exact run_bind_ok hrun₅
  · rw [live_append, live_cons_free hfree, hlive, Nat.zero_add, ← hstop, ← hlive' (span front)]
    rfl

/-- Releasing a live block of a sound heap takes it out of the live blocks, and the
call is remembered where it lay. -/
theorem run_releaseSegment {m : Machine} {pre post : List Block} {b : Block} (site : CallSite)
    (hs : m.arena.Sound m.platform (pre ++ b :: post)) (hu : b.used = true) :
    ∃ m' bs', releaseSegment .none (span pre) site m = .ok () m' ∧
      m'.arena.Sound m'.platform bs' ∧ m.Around m' ∧
      List.Perm ((span pre, b) :: live 0 bs') (live 0 (pre ++ b :: post)) ∧
      Credited (m.stamp site) site (pre ++ b :: post) bs' := by
  have hl := hs.lists
  obtain ⟨front, c, back, a, hmerge, hlists, hin, ⟨hc, hfreed⟩, htidy, ⟨hback, hahead⟩, hlive⟩ :=
    exists_merged site hl hs.orderly.toTidy hu
  obtain ⟨m', htrim, hsound, haround, hkept⟩ :=
    run_trim_inside hs hin hlists hc htidy hahead.suffix
  have hused : ¬ (!(b.headerIn pre post).used) = true := by simp [hu]
  have hspan : span (front ++ c :: back) = span (pre ++ b :: post) := by
    rw [← hlists.top_eq, ← hl.top_eq, hin.top_eq]
  have hperm := perm_released hu (hkept.trans hlive)
  refine ⟨m', _, ?_, hsound, haround, hperm, credited_released hperm fun z hz =>
    marked_released htidy hc hfreed hback hahead hspan hz⟩
  unfold releaseSegment
  rw [run_bind_ok (run_get m)]
  dsimp only
  rw [hl.read, run_bind_ok (run_lift_ok _ _), if_neg hused, hl.predecessor,
    run_bind_ok (run_lift_ok _ _), hl.successor, run_bind_ok (run_lift_ok _ _),
    hl.inspectNeighbors, run_bind_ok (run_lift_ok _ _), run_bind_ok hmerge, run_bind_ok htrim,
    run_bind_ok (run_get m'), hsound.lists.totals hsound.orderly.separated]
  rfl

end Machine

end GuardedHeap
