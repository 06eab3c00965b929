/-
  Proofs/Overflow.lean --- sums over memory that says anything at all.

  WHAT THIS FILE IS FOR.  The audit and the listing add up sizes that they read from
  memory, and a size word may hold anything.  A segment with a successor is bounded by the
  link that leads there, so that everything in front of the last segment adds up to less
  than the top.  Nothing bounds the size of the last one.

  WHAT IS PROVED.  Whatever the headers, the recorded last segment and the top are, the
  audit and the listing end with a result or report what is damaged, unless the walk comes
  to a last segment whose size takes a sum out of the range of words.  Then they stop with
  a broken precondition.  All of it only changes the journal.
-/
import GuardedHeap.Proofs.Audit
import GuardedHeap.Proofs.Traversal

set_option autoImplicit false

namespace GuardedHeap

/-! ## How an examination ends -/

/-- The errors that say what is damaged. -/
def HeapError.Damage : HeapError → Prop
  | corrupted .. => True
  | brokenLink .. => True
  | inconsistent .. => True
  | _ => False

/-- An examination of memory ended with a result or with an error that says what is
damaged, or, exactly where `P` holds, in a sum that leaves the range of words. -/
inductive Examines {α : Type} (P : Prop) : Except Fault α → Prop
  | passes {r : α} : ¬ P → Examines P (.ok r)
  | finds {error : HeapError} : ¬ P → error.Damage → Examines P (.error (.detected error))
  | overflows : P → Examines P (.error (.panic .addOverflow))

/-- A fault that says what is damaged. -/
def Fault.Damage (f : Fault) : Prop := ∃ error : HeapError, f = .detected error ∧ error.Damage

namespace Examines

variable {α β : Type} {P Q : Prop} {x : Except Fault α}

theorem of_damage {f : Fault} (hf : f.Damage) (hP : ¬ P) :
    Examines P (.error f : Except Fault α) := by
  obtain ⟨error, rfl, hdamage⟩ := hf
  exact .finds hP hdamage

theorem congr (h : Examines P x) (hiff : P ↔ Q) : Examines Q x := by
  cases h with
  | passes hP => exact .passes fun hQ => hP (hiff.mpr hQ)
  | finds hP hdamage => exact .finds (fun hQ => hP (hiff.mpr hQ)) hdamage
  | overflows hP => exact .overflows (hiff.mp hP)

theorem map (h : Examines P x) (f : α → β) : Examines P (x.map f) := by
  cases h with
  | passes hP => exact .passes hP
  | finds hP hdamage => exact .finds hP hdamage
  | overflows hP => exact .overflows hP

end Examines

namespace Arena

variable {a : Arena} {off : Nat}

/-! ## What bounds a size -/

/-- The payloads of some segments, used and free. -/
def payloads (ss : List Segment) : Nat := payloadIn true ss + payloadIn false ss

theorem payloadIn_append (used : Bool) (xs ys : List Segment) :
    payloadIn used (xs ++ ys) = payloadIn used xs + payloadIn used ys :=
  payloadBy_append _ _ used xs ys

theorem payloadIn_singleton (used : Bool) (s : Segment) :
    payloadIn used [s] = if s.header.used = used then s.header.size else 0 :=
  payloadIn_cons used s []

theorem payloads_append (xs ys : List Segment) :
    payloads (xs ++ ys) = payloads xs + payloads ys := by
  unfold payloads
  rw [payloadIn_append, payloadIn_append]
  omega

theorem payloads_singleton (s : Segment) : payloads [s] = s.header.size := by
  unfold payloads
  rw [payloadIn_singleton, payloadIn_singleton]
  cases s.header.used <;> simp

theorem payloadIn_le (used : Bool) (ss : List Segment) : payloadIn used ss ≤ payloads ss := by
  unfold payloads
  cases used <;> omega

theorem Unreadable.damage {e : Fault} (h : a.Unreadable off e) : e.Damage := by
  cases h with
  | guard => exact ⟨_, rfl, trivial⟩
  | link => exact ⟨_, rfl, trivial⟩

/-- A walk that fails has found damage, and what it passed before lies below the top. -/
theorem walkFrom_failed (hroom : off + headerSize ≤ a.top) (htop : a.top < 2 ^ 64) {f : Fault}
    (hf : (a.walkFrom off).failure = some f) :
    f.Damage ∧ off + payloads (a.walkFrom off).segments ≤ a.top := by
  fun_induction walkFrom a off with
  | case1 off e hstep =>
    cases hf
    rcases step_cases hroom htop with ⟨h, -, -, -, hok⟩ | ⟨e', he, herror⟩
    · cases hstep.symm.trans hok
    · cases hstep.symm.trans herror
      exact ⟨he.damage, Nat.le_trans (Nat.le_add_right off headerSize) hroom⟩
  | case2 off s hstep => cases hf
  | case3 off s next hstep rest ih =>
    obtain ⟨-, -, hs⟩ := step_eq_ok hstep
    obtain ⟨-, hnext, hfits⟩ := successor_eq_some hs
    obtain ⟨hdamage, hle⟩ := ih hfits hf
    have hsum : payloads (s :: rest.segments) = s.header.size + payloads rest.segments := by
      rw [← List.singleton_append, payloads_append, payloads_singleton]
    refine ⟨hdamage, ?_⟩
    show off + payloads (s :: rest.segments) ≤ a.top
    have hrest : off + s.header.size + payloads rest.segments ≤ next + payloads rest.segments := by
      omega
    rw [hsum, ← Nat.add_assoc]
    exact Nat.le_trans hrest hle

/-- A walk that comes to its end has passed segments that lie in front of the last one,
and a header fits there. -/
theorem walkFrom_ended (hroom : off + headerSize ≤ a.top)
    (hf : (a.walkFrom off).failure = none) :
    ∃ front l, (a.walkFrom off).segments = front ++ [l] ∧ off + payloads front ≤ l.offset ∧
      l.offset + headerSize ≤ a.top := by
  fun_induction walkFrom a off with
  | case1 off e hstep => cases hf
  | case2 off s hstep =>
    obtain ⟨hoff, -, -⟩ := step_eq_ok hstep
    exact ⟨[], s, rfl, Nat.le_of_eq hoff.symm, by rw [hoff]; exact hroom⟩
  | case3 off s next hstep rest ih =>
    obtain ⟨-, -, hs⟩ := step_eq_ok hstep
    obtain ⟨-, hnext, hfits⟩ := successor_eq_some hs
    obtain ⟨front, l, hsegs, hle, hl⟩ := ih hfits hf
    refine ⟨s :: front, l, ?_, ?_, hl⟩
    · show s :: rest.segments = _
      rw [hsegs]
      rfl
    · rw [← List.singleton_append, payloads_append, payloads_singleton]
      omega

/-! ## The audit -/

end Arena

/-- A segment names the one in front of it, and they are not both free. -/
def Segment.FollowedBy (s t : Segment) : Prop :=
  t.header.prev = some s.offset ∧ (s.header.used = true ∨ t.header.used = true)

instance : DecidableRel Segment.FollowedBy := fun s t =>
  inferInstanceAs (Decidable (t.header.prev = some s.offset ∧ (_ ∨ _)))

namespace Arena

/-- The check of a segment against the one before passes exactly where it follows that,
and finds damage elsewhere. -/
theorem checkAfter_cases (a : Arena) (s t : Segment) :
    (s.FollowedBy t ∧ a.checkAfter (some s) t = .ok ()) ∨
      ¬ s.FollowedBy t ∧ ∃ f : Fault, f.Damage ∧ a.checkAfter (some s) t = .error f := by
  unfold checkAfter
  dsimp only
  by_cases hprev : t.header.prev = some s.offset
  · rw [if_neg (not_not_intro hprev)]
    by_cases hfree : s.header.used = false ∧ t.header.used = false
    · rw [if_pos hfree]
      refine .inr ⟨fun h => ?_, a.inconsistent t.offset .adjacentFree, ⟨_, rfl, trivial⟩, rfl⟩
      rcases h.2 with hu | hu
      · rw [hfree.1] at hu
        cases hu
      · rw [hfree.2] at hu
        cases hu
    · rw [if_neg hfree]
      refine .inl ⟨⟨hprev, ?_⟩, rfl⟩
      cases hs : s.header.used with
      | true => exact .inl rfl
      | false =>
        cases ht : t.header.used with
        | true => exact .inr rfl
        | false => exact absurd ⟨hs, ht⟩ hfree
  · rw [if_pos hprev]
    exact .inr ⟨fun h => hprev h.1, a.brokenLink t.offset (t.header.prev.getD Word.largest),
      ⟨_, rfl, trivial⟩, rfl⟩

end Arena

namespace Totals

/-- The sum of the kind of a segment. -/
def bytesLike (t : Totals) (s : Segment) : Nat :=
  if s.header.used then t.usedBytes else t.freeBytes

/-- Counting a segment fails exactly where the sum of its kind leaves the range. -/
theorem add_eq (t : Totals) (s : Segment) :
    t.add s = if t.bytesLike s + s.header.size < 2 ^ 64 then .ok (t.counting s)
      else .error (.panic .addOverflow) := by
  unfold add bytesLike counting Word.add
  cases s.header.used with
  | true =>
    simp only [if_true]
    split <;> rfl
  | false =>
    simp only [Bool.false_eq_true, if_false]
    split <;> rfl

end Totals

namespace Arena

section Tally

variable {a : Arena}

/-- Checking and counting goes on from where it stopped. -/
theorem tally_append (a : Arena) (before : Option Segment) (t : Totals) (xs ys : List Segment) :
    a.tally before t (xs ++ ys) =
      (a.tally before t xs).bind fun r => a.tally r.2 r.1 ys := by
  induction xs generalizing before t with
  | nil => rfl
  | cons s rest ih =>
    rw [List.cons_append, tally, tally]
    cases a.checkAfter before s with
    | error e => rfl
    | ok u =>
      cases hadd : t.add s with
      | error e => rfl
      | ok t' =>
        simp only [bind, Except.bind]
        exact ih (some s) t'

theorem tally_singleton (a : Arena) (before : Option Segment) (t : Totals) (s : Segment) :
    a.tally before t [s] =
      (a.checkAfter before s).bind fun _ => (t.add s).bind fun t => .ok (t, some s) := rfl

/-- Segments that add up to a word are all counted where each follows the one before, and
damage is found elsewhere. -/
theorem tally_bounded (before : Option Segment) {t : Totals} {ss : List Segment}
    (hw : t.usedBytes + t.freeBytes + payloads ss < 2 ^ 64) :
    ((before.toList ++ ss).IsChain Segment.FollowedBy ∧
        a.tally before t ss = .ok (t.through ss, ss.getLast?.or before)) ∨
      ¬ (before.toList ++ ss).IsChain Segment.FollowedBy ∧
        ∃ f : Fault, f.Damage ∧ a.tally before t ss = .error f := by
  induction ss generalizing before t with
  | nil =>
    refine .inl ⟨?_, rfl⟩
    cases before with
    | none => exact List.IsChain.nil
    | some b => exact List.isChain_singleton b
  | cons s rest ih =>
    rw [← List.singleton_append, payloads_append, payloads_singleton] at hw
    have hlike : t.bytesLike s + s.header.size < 2 ^ 64 := by
      unfold Totals.bytesLike
      split <;> omega
    have hadd : t.add s = .ok (t.counting s) := by
      rw [Totals.add_eq, if_pos hlike]
    have hcounted : (t.counting s).usedBytes + (t.counting s).freeBytes =
        t.usedBytes + t.freeBytes + s.header.size := by
      unfold Totals.counting
      cases s.header.used <;> simp <;> omega
    have hrest := ih (some s) (t := t.counting s) (by rw [hcounted]; omega)
    -- the check of the segment, where there is one before it
    have hcheck : ((before.toList ++ s :: rest).IsChain Segment.FollowedBy ↔
          (s :: rest).IsChain Segment.FollowedBy) ∧ a.checkAfter before s = .ok () ∨
        ¬ (before.toList ++ s :: rest).IsChain Segment.FollowedBy ∧
          ∃ f : Fault, f.Damage ∧ a.checkAfter before s = .error f := by
      cases before with
      | none => exact .inl ⟨Iff.rfl, rfl⟩
      | some b =>
        rw [Option.toList_some, List.singleton_append, List.isChain_cons_cons]
        rcases a.checkAfter_cases b s with ⟨hfollows, hok⟩ | ⟨hnot, f, hf, herror⟩
        · exact .inl ⟨and_iff_right hfollows, hok⟩
        · exact .inr ⟨fun h => hnot h.1, f, hf, herror⟩
    rw [tally]
    rcases hcheck with ⟨hiff, hok⟩ | ⟨hnot, f, hf, herror⟩
    · rw [hok]
      simp only [bind, Except.bind, hadd]
      rw [hiff]
      rcases hrest with ⟨hchain, htally⟩ | ⟨hbroken, f, hf, htally⟩
      · refine .inl ⟨hchain, ?_⟩
        rw [htally, t.through_cons, List.getLast?_cons, Option.some_or]
        cases rest.getLast? <;> rfl
      · exact .inr ⟨hbroken, f, hf, htally⟩
    · rw [herror]
      exact .inr ⟨hnot, f, hf, rfl⟩

end Tally

/-- The audit comes to a sum that is no word: the walk comes to its end, every segment
follows the one before, and the last one is too large. -/
structure AuditOverflows (a : Arena) : Prop where
  complete : a.walk.failure = none
  ordered : a.walk.segments.IsChain Segment.FollowedBy
  exceeds : (∃ used, 2 ^ 64 ≤ payloadIn used a.walk.segments) ∨
    ∃ s ∈ a.walk.segments.getLast?, s.offset = a.last ∧ 2 ^ 64 ≤ s.stop

/-- The listing comes to a sum that is no word. -/
def ListingOverflows (a : Arena) : Prop := ∃ used, 2 ^ 64 ≤ payloadIn used a.walk.segments

theorem auditOverflows_iff {a : Arena} :
    a.AuditOverflows ↔ a.walk.failure = none ∧ a.walk.segments.IsChain Segment.FollowedBy ∧
      ((∃ used, 2 ^ 64 ≤ payloadIn used a.walk.segments) ∨
        ∃ s ∈ a.walk.segments.getLast?, s.offset = a.last ∧ 2 ^ 64 ≤ s.stop) :=
  ⟨fun h => ⟨h.complete, h.ordered, h.exceeds⟩, fun h => ⟨h.1, h.2.1, h.2.2⟩⟩

section Totals

variable {a : Arena}

/-- The check of the end fails in a sum exactly at a recorded last segment that ends
outside the range of words. -/
theorem checkLast_examines (s : Segment) (hs : s.offset + headerSize < 2 ^ 64) :
    Examines (s.offset = a.last ∧ 2 ^ 64 ≤ s.stop) (a.checkLast s) := by
  have hstop : s.stop = s.offset + headerSize + s.header.size := rfl
  unfold checkLast
  by_cases hlast : s.offset ≠ a.last
  · rw [if_pos hlast]
    exact .finds (fun h => hlast h.1) trivial
  · have hpayload : Word.add s.offset headerSize = .ok (s.offset + headerSize) :=
      Word.add_eq_ok.mpr ⟨rfl, hs⟩
    rw [if_neg hlast, hpayload]
    simp only [bind, Except.bind, Word.add]
    by_cases hword : s.offset + headerSize + s.header.size < 2 ^ 64
    · have hnot : ¬ (s.offset = a.last ∧ 2 ^ 64 ≤ s.stop) := fun h => by omega
      rw [if_pos hword]
      dsimp only
      split
      · exact .finds hnot trivial
      · exact .passes hnot
    · rw [if_neg hword]
      exact .overflows ⟨of_not_not hlast, by omega⟩

/-- The kind of the last segment decides whether a sum leaves the range with it. -/
theorem exceeds_concat_iff {front : List Segment} {l : Segment} (hw : payloads front < 2 ^ 64) :
    (∃ used, 2 ^ 64 ≤ payloadIn used (front ++ [l])) ↔
      2 ^ 64 ≤ payloadIn l.header.used front + l.header.size := by
  constructor
  · rintro ⟨used, hle⟩
    rw [payloadIn_append, payloadIn_singleton] at hle
    by_cases hlike : l.header.used = used
    · rwa [if_pos hlike, ← hlike] at hle
    · have := payloadIn_le used front
      rw [if_neg hlike] at hle
      omega
  · intro hle
    refine ⟨l.header.used, ?_⟩
    rwa [payloadIn_append, payloadIn_singleton, if_pos rfl]

/-- The end of an audit that came to the end of the walk: the last segment is checked. -/
def settle (a : Arena) : Totals × Option Segment → Except Fault Totals
  | (t, some s) => (a.checkLast s).map fun _ => t
  | (t, none) => .ok t

/-- The audit from where only the last segment is left. -/
theorem examines_end {front : List Segment} {l : Segment}
    (hfront : front.IsChain Segment.FollowedBy) (hw : payloads front < 2 ^ 64)
    (hl : l.offset + headerSize < 2 ^ 64) :
    Examines ((front ++ [l]).IsChain Segment.FollowedBy ∧
        ((∃ used, 2 ^ 64 ≤ payloadIn used (front ++ [l])) ∨
          l.offset = a.last ∧ 2 ^ 64 ≤ l.stop))
      ((a.tally front.getLast? ((Totals.start a).through front) [l]).bind a.settle) := by
  have hlike : ((Totals.start a).through front).bytesLike l = payloadIn l.header.used front := by
    unfold Totals.bytesLike
    cases l.header.used <;> simp [Totals.through, Totals.start]
  rw [exceeds_concat_iff hw, tally_singleton]
  have hcheck : ((front ++ [l]).IsChain Segment.FollowedBy ∧
        a.checkAfter front.getLast? l = .ok ()) ∨
      ¬ (front ++ [l]).IsChain Segment.FollowedBy ∧
        ∃ f : Fault, f.Damage ∧ a.checkAfter front.getLast? l = .error f := by
    rw [List.isChain_append]
    cases hlast : front.getLast? with
    | none =>
      exact .inl ⟨⟨hfront, List.isChain_singleton l, fun x hx => by cases hx⟩, rfl⟩
    | some b =>
      rcases a.checkAfter_cases b l with ⟨hfollows, hok⟩ | ⟨hnot, f, hf, herror⟩
      · refine .inl ⟨⟨hfront, List.isChain_singleton l, fun x hx y hy => ?_⟩, hok⟩
        cases hx
        cases hy
        exact hfollows
      · exact .inr ⟨fun h => hnot (h.2.2 b rfl l rfl), f, hf, herror⟩
  rcases hcheck with ⟨hchain, hok⟩ | ⟨hnot, f, hf, herror⟩
  · rw [hok, Totals.add_eq, hlike]
    by_cases hword : payloadIn l.header.used front + l.header.size < 2 ^ 64
    · rw [if_pos hword]
      refine ((checkLast_examines l hl).congr ?_).map _
      have hnot : ¬ 2 ^ 64 ≤ payloadIn l.header.used front + l.header.size :=
        Nat.not_le.mpr hword
      exact ⟨fun h => ⟨hchain, .inr h⟩, fun h => h.2.resolve_left hnot⟩
    · rw [if_neg hword]
      exact .overflows ⟨hchain, .inl (Nat.le_of_not_lt hword)⟩
  · rw [herror]
    exact .of_damage hf fun h => hnot h.1

/-- The audit counts what the walk passed, and then looks at how the walk ended. -/
theorem totals_eq (a : Arena) :
    a.totals = (a.tally none (.start a) a.walk.segments).bind fun r =>
      match a.walk.failure with
      | some f => .error f
      | none => a.settle r := by
  unfold Arena.totals
  simp only [bind, Except.bind]
  cases a.tally none (.start a) a.walk.segments with
  | error e => rfl
  | ok r =>
    dsimp only
    cases a.walk.failure with
    | some f => rfl
    | none =>
      obtain ⟨t, last⟩ := r
      cases last with
      | none => rfl
      | some s =>
        unfold settle
        cases a.checkLast s <;> rfl

/-- The audit of any memory. -/
theorem totals_examines (hroom : headerSize ≤ a.top) (htop : a.top < 2 ^ 64) :
    Examines a.AuditOverflows a.totals := by
  have hzero : 0 + headerSize ≤ a.top := by omega
  rw [totals_eq]
  cases hfailure : a.walk.failure with
  | some f =>
    -- everything the walk passed adds up, so the audit comes to what stopped the walk
    have hnot : ¬ a.AuditOverflows := by
      intro h
      rw [h.complete] at hfailure
      cases hfailure
    obtain ⟨hdamage, hle⟩ := walkFrom_failed hzero htop hfailure
    have hsmall : (Totals.start a).usedBytes + (Totals.start a).freeBytes +
        payloads a.walk.segments < 2 ^ 64 := by
      show 0 + 0 + payloads (a.walkFrom 0).segments < 2 ^ 64
      omega
    rcases tally_bounded (a := a) none hsmall with ⟨-, htally⟩ | ⟨-, e, he, htally⟩
    · rw [htally]
      exact .of_damage hdamage hnot
    · rw [htally]
      exact .of_damage he hnot
  | none =>
    obtain ⟨front, l, hsegs, hle, hl⟩ := walkFrom_ended hzero hfailure
    have hsegs : a.walk.segments = front ++ [l] := hsegs
    have hsmall : (Totals.start a).usedBytes + (Totals.start a).freeBytes + payloads front <
        2 ^ 64 := by
      show 0 + 0 + payloads front < 2 ^ 64
      omega
    rw [auditOverflows_iff, hsegs, tally_append, List.getLast?_concat]
    simp only [hfailure, true_and, Option.mem_def, Option.some.injEq, exists_eq_left']
    rcases tally_bounded (a := a) none hsmall with
      ⟨hfront, htally⟩ | ⟨hnot, e, he, htally⟩
    · rw [htally, Option.or_none]
      have hall : payloads front < 2 ^ 64 := by omega
      exact examines_end hfront hall (Nat.lt_of_le_of_lt hl htop)
    · rw [htally]
      exact .of_damage he fun h => hnot h.1.left_of_append

/-- Nothing but the size of the last segment takes a sum out of the range. -/
theorem not_overflows_of_stop_lt (hroom : headerSize ≤ a.top) (htop : a.top < 2 ^ 64)
    (hstop : ∀ s ∈ a.walk.segments.getLast?, s.stop < 2 ^ 64) :
    ¬ a.AuditOverflows ∧ ¬ a.ListingOverflows := by
  have hzero : 0 + headerSize ≤ a.top := by omega
  have hlisting : ¬ a.ListingOverflows := by
    rintro ⟨used, hexceeds⟩
    have hle := Nat.le_trans hexceeds (payloadIn_le used a.walk.segments)
    cases hfailure : a.walk.failure with
    | some f =>
      have hbelow : 0 + payloads a.walk.segments ≤ a.top :=
        (walkFrom_failed hzero htop hfailure).2
      omega
    | none =>
      obtain ⟨front, l, hsegs, hfront, -⟩ := walkFrom_ended hzero hfailure
      have hsegs : a.walk.segments = front ++ [l] := hsegs
      have hl : l.offset + headerSize + l.header.size < 2 ^ 64 :=
        hstop l (by rw [hsegs, List.getLast?_concat]; rfl)
      rw [hsegs, payloads_append, payloads_singleton] at hle
      omega
  refine ⟨fun h => ?_, hlisting⟩
  rcases h.exceeds with hexceeds | ⟨s, hs, -, hbeyond⟩
  · exact hlisting hexceeds
  · have := hstop s hs
    omega

theorem walk_of_small (hsmall : a.top < headerSize) :
    a.walk = ⟨[], some (.panic .headerPastTop)⟩ := by
  have hstep : a.step 0 = .error (.panic .headerPastTop) := by
    have hstop : Word.add 0 headerSize = .ok headerSize := rfl
    unfold step read
    rw [hstop]
    simp only [bind, Except.bind, if_pos hsmall]
    rfl
  rw [walk, walkFrom, hstep]

end Totals

end Arena

namespace Machine

variable {α β : Type} {m : Machine} {P : Prop}

/-! ## The listing -/

/-- A listing without details adds up all segments, unless the sum of one kind leaves the
range. -/
theorem addUsage_eq {u : Usage} (hused : u.used < 2 ^ 64) (hunused : u.unused < 2 ^ 64)
    (ss : List Segment) (m : Machine) :
    addUsage false u ss m =
      if (u.over ss).used < 2 ^ 64 ∧ (u.over ss).unused < 2 ^ 64 then .ok (u.over ss) m
      else .error (.panic .addOverflow) m := by
  induction ss generalizing u with
  | nil =>
    rw [if_pos ⟨hused, hunused⟩]
    rfl
  | cons s rest ih =>
    rw [← Usage.over_over, addUsage]
    cases hu : s.header.used with
    | true =>
      rw [if_pos rfl, u.over_used hu]
      by_cases hword : u.used + s.header.size < 2 ^ 64
      · rw [Word.add_eq_ok.mpr ⟨rfl, hword⟩, run_bind_ok (run_lift_ok _ _)]
        exact ih hword hunused
      · have hsum : Word.add u.used s.header.size = .error (.panic .addOverflow) := if_neg hword
        rw [hsum, run_bind_error (run_lift_error _ _), if_neg]
        exact fun h => hword (Nat.lt_of_le_of_lt (Nat.le_add_right _ _) h.1)
    | false =>
      rw [if_neg Bool.false_ne_true, u.over_unused hu]
      by_cases hword : u.unused + s.header.size < 2 ^ 64
      · rw [Word.add_eq_ok.mpr ⟨rfl, hword⟩, run_bind_ok (run_lift_ok _ _)]
        exact ih hused hword
      · have hsum : Word.add u.unused s.header.size = .error (.panic .addOverflow) := if_neg hword
        rw [hsum, run_bind_error (run_lift_error _ _), if_neg]
        exact fun h => hword (Nat.lt_of_le_of_lt (Nat.le_add_right _ _) h.2)

/-- What the listing counts under the lock. -/
def counting : HeapM Usage := do
  let w := (← get).arena.walk
  let u ← addUsage false ⟨0, 0, 0⟩ w.segments
  if let some f := w.failure then throw f
  return u

/-- The sums of the listing, or why there are none. -/
def counted (a : Arena) : Except Fault Usage :=
  if ∀ used, payloadIn used a.walk.segments < 2 ^ 64 then
    match a.walk.failure with
    | some f => .error f
    | none => .ok (Usage.over ⟨0, 0, 0⟩ a.walk.segments)
  else .error (.panic .addOverflow)

theorem run_counting (m : Machine) : counting m = ended (counted m.arena) m := by
  have hover : ∀ used : Bool, payloadIn used m.arena.walk.segments =
      if used then (Usage.over ⟨0, 0, 0⟩ m.arena.walk.segments).used
      else (Usage.over ⟨0, 0, 0⟩ m.arena.walk.segments).unused := by
    intro used
    cases used <;> simp [Usage.over]
  have hsums : ((Usage.over ⟨0, 0, 0⟩ m.arena.walk.segments).used < 2 ^ 64 ∧
      (Usage.over ⟨0, 0, 0⟩ m.arena.walk.segments).unused < 2 ^ 64) ↔
        ∀ used, payloadIn used m.arena.walk.segments < 2 ^ 64 := by
    simp only [Bool.forall_bool, hover, if_true, Bool.false_eq_true, if_false]
    exact And.comm
  have hadd := addUsage_eq (u := ⟨0, 0, 0⟩) (by decide) (by decide) m.arena.walk.segments m
  simp only [hsums] at hadd
  unfold counting counted
  rw [run_bind_ok (run_get m)]
  dsimp only
  by_cases hword : ∀ used, payloadIn used m.arena.walk.segments < 2 ^ 64
  · rw [if_pos hword] at hadd ⊢
    rw [run_bind_ok hadd]
    cases m.arena.walk.failure with
    | some f => rfl
    | none => rfl
  · rw [if_neg hword] at hadd ⊢
    rw [run_bind_error hadd]
    rfl

/-- The listing of any memory. -/
theorem counted_examines {a : Arena} (hroom : headerSize ≤ a.top) (htop : a.top < 2 ^ 64) :
    Examines a.ListingOverflows (counted a) := by
  have hzero : 0 + headerSize ≤ a.top := by omega
  have hiff : (∀ used, payloadIn used a.walk.segments < 2 ^ 64) ↔ ¬ a.ListingOverflows := by
    unfold Arena.ListingOverflows
    simp only [not_exists, Nat.not_le]
  unfold counted
  by_cases hword : ∀ used, payloadIn used a.walk.segments < 2 ^ 64
  · have hnot := hiff.mp hword
    rw [if_pos hword]
    cases hfailure : a.walk.failure with
    | some f =>
      have hdamage := (Arena.walkFrom_failed hzero htop hfailure).1
      exact .of_damage hdamage hnot
    | none => exact .passes hnot
  · rw [if_neg hword]
    exact .overflows (of_not_not fun hnot => hword (hiff.mpr hnot))

theorem tryUsedBytes_false (site : CallSite) :
    tryUsedBytes false site = (do
      let u ← locked site counting
      return u.used) := rfl

/-! ## Seen from outside -/

/-- A call that examined memory ended in a broken precondition where `P` holds, and
otherwise with a result or a report that says what is damaged.  It only changed the
journal. -/
structure Concludes (m : Machine) (site : CallSite) (P : Prop)
    (r : EStateM.Result Fault Machine α) : Prop where
  overflows : P → ∃ j, r = .error (.panic .addOverflow) { m with journal := j }
  otherwise : ¬ P → (∃ a j, r = .ok a { m with journal := j }) ∨
    ∃ error : HeapError, error.Damage ∧ m.Reports site error r

theorem concludes_of_examines {x : Except Fault α} {body : HeapM α} {site : CallSite}
    (hx : Examines P x) (hbody : ∃ j, body m = ended x { m with journal := j }) :
    m.Concludes site P (reporting site body m) := by
  obtain ⟨j, hrun⟩ := hbody
  unfold reporting
  cases hx with
  | @passes r hP => exact ⟨fun h => absurd h hP, fun _ => .inl ⟨r, j, run_tryCatch_ok hrun⟩⟩
  | @finds error hP hdamage =>
    exact ⟨fun h => absurd h hP, fun _ => .inr ⟨error, hdamage, _, run_tryCatch_error hrun⟩⟩
  | overflows hP => exact ⟨fun _ => ⟨j, run_tryCatch_error hrun⟩, fun h => absurd hP h⟩

theorem run_reporting_panic {body : HeapM α} {cause : Panic} (site : CallSite)
    (hbody : ∃ j, body m = ended (.error (.panic cause)) { m with journal := j }) :
    ∃ j, reporting site body m = .error (.panic cause) { m with journal := j } := by
  obtain ⟨j, hrun⟩ := hbody
  exact ⟨j, run_tryCatch_error hrun⟩

section Calls

variable (hl : m.lock = .unlocked) (ho : m.Open) (site : CallSite)

include hl ho

theorem exists_tryTotals :
    ∃ j, tryTotals site m = ended m.arena.totals { m with journal := j } := by
  refine run_locked hl ho site fun j => ⟨j, ?_⟩
  rw [run_bind_ok (run_get _)]
  show (liftM m.arena.totals : HeapM Totals) _ = _
  cases m.arena.totals with
  | ok t => rfl
  | error e => rfl

theorem exists_tryUsedBytes :
    ∃ j, tryUsedBytes false site m =
      ended ((counted m.arena).map Usage.used) { m with journal := j } := by
  obtain ⟨j, hrun⟩ := run_locked (r := counted m.arena) hl ho site fun j =>
    ⟨j, run_counting (m.entered site j)⟩
  refine ⟨j, ?_⟩
  rw [tryUsedBytes_false]
  cases hc : counted m.arena with
  | ok u =>
    rw [hc] at hrun
    exact run_bind_ok hrun
  | error e =>
    rw [hc] at hrun
    exact run_bind_error hrun

/-- Whatever the headers, the recorded last segment and the top are: the audit and the
listing without details end with a result, or report what is damaged, unless a size takes
one of their sums out of the range of words, which only that of a last segment can.  In an
arena that is too small for a header they stop at once. -/
theorem examines_or_overflows (htop : m.arena.top < 2 ^ 64) :
    (headerSize ≤ m.arena.top →
      m.Concludes site m.arena.AuditOverflows (stats site m) ∧
      m.Concludes site m.arena.ListingOverflows (usedBytes false site m) ∧
      ((∀ s ∈ m.arena.walk.segments.getLast?, s.stop < 2 ^ 64) →
        ¬ m.arena.AuditOverflows ∧ ¬ m.arena.ListingOverflows)) ∧
    (m.arena.top < headerSize →
      (∃ j, stats site m = .error (.panic .headerPastTop) { m with journal := j }) ∧
      ∃ j, usedBytes false site m = .error (.panic .headerPastTop) { m with journal := j }) := by
  have htotals := exists_tryTotals hl ho site
  have hcount := exists_tryUsedBytes hl ho site
  constructor
  · intro hroom
    exact ⟨concludes_of_examines (Arena.totals_examines hroom htop) htotals,
      concludes_of_examines ((counted_examines hroom htop).map _) hcount,
      Arena.not_overflows_of_stop_lt hroom htop⟩
  · intro hsmall
    have hwalk := Arena.walk_of_small hsmall
    have hstopped : m.arena.totals = .error (.panic .headerPastTop) := by
      rw [Arena.totals_eq, hwalk]
      rfl
    have hlisted : counted m.arena = .error (.panic .headerPastTop) := by
      unfold counted
      rw [hwalk, if_pos fun used => by cases used <;> decide]
    rw [hstopped] at htotals
    rw [hlisted] at hcount
    exact ⟨run_reporting_panic site htotals, run_reporting_panic site hcount⟩

end Calls

/-- A new heap whose only segment says that it is as large as can be. -/
def oversized : Machine :=
  { World.smallNew.machine with
    arena := { World.smallNew.machine.arena with
      memory := World.smallNew.machine.arena.memory.writeWord 8 8 Word.largest } }

/-- The audit of it overflows, and the listing does not. -/
theorem examines_oversized :
    (∃ j, stats ⟨1⟩ oversized = .error (.panic .addOverflow) { oversized with journal := j }) ∧
      ¬ oversized.arena.ListingOverflows := by
  have hwalk : oversized.arena.walk.segments =
      [⟨0, ⟨false, Word.largest, none, none, none, none, none⟩⟩] := by decide +kernel
  obtain ⟨hstats, -, -⟩ := (examines_or_overflows (m := oversized) (by decide +kernel)
    (by decide +kernel) ⟨1⟩ (by decide +kernel)).1 (by decide +kernel)
  refine ⟨hstats.overflows ⟨by decide +kernel, ?_, .inr ?_⟩, ?_⟩
  · rw [hwalk]
    exact List.isChain_singleton _
  · rw [hwalk]
    exact ⟨_, rfl, by decide +kernel, by decide⟩
  · unfold Arena.ListingOverflows
    rw [hwalk]
    decide

/-- So an audit need not end with a result or a report. -/
theorem not_examines_oversized :
    ¬ ∀ m : Machine, m.lock = .unlocked → m.Open → m.arena.top < 2 ^ 64 →
      headerSize ≤ m.arena.top → ∀ site,
        (∃ t n, stats site m = .ok t n) ∨
          ∃ report n, stats site m = .error (.fatal report) n ∧ report.error.Damage := by
  intro h
  have hrun : stats ⟨1⟩ oversized = .error (.panic .addOverflow) (after (stats ⟨1⟩) oversized) :=
    run_of_fails (by decide +kernel)
  rcases h oversized (by decide +kernel) (by decide +kernel) (by decide +kernel)
    (by decide +kernel) ⟨1⟩ with ⟨t, n, hok⟩ | ⟨report, n, herror, -⟩
  · cases hrun.symm.trans hok
  · cases hrun.symm.trans herror

end Machine

end GuardedHeap
