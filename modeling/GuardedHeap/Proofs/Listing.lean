/-
  Proofs/Listing.lean --- the listing of what is in use.

  WHAT THIS FILE IS FOR.  The listing goes over all segments in the order of their
  addresses, adds up what is used and what is free, and writes a line for every traced
  block and a summary.  Here nothing is known of the segments but that the walk came to
  its end and that their payloads add up to a word.

  WHAT IS PROVED.  The listing returns the sum in use and writes exactly these lines,
  unless the sum is too large for its percentage.
-/
import GuardedHeap.Proofs.Calls

set_option autoImplicit false

namespace GuardedHeap

/-! ## Sums over segments -/

/-- Payload bytes of the segments that are used, or that are free. -/
def payloadIn (used : Bool) (ss : List Segment) : Nat :=
  payloadBy (fun s => s.header.used) (fun s => s.header.size) used ss

/-- How many of the segments are used, or are free. -/
def countIn (used : Bool) (ss : List Segment) : Nat :=
  countBy (fun s => s.header.used) used ss

theorem payloadIn_cons (used : Bool) (s : Segment) (ss : List Segment) :
    payloadIn used (s :: ss) =
      (if s.header.used = used then s.header.size else 0) + payloadIn used ss :=
  payloadBy_cons _ _ used s ss

theorem countIn_cons (used : Bool) (s : Segment) (ss : List Segment) :
    countIn used (s :: ss) = (if s.header.used = used then 1 else 0) + countIn used ss :=
  countBy_cons _ used s ss

/-- The line for a segment: a traced block shows its size, its owner and where it was
allocated. -/
def Segment.tracedLine (s : Segment) : Option LogLine :=
  match s.header.used, s.header.allocatedAt, s.header.allocatedBy with
  | true, some site, some owner => some (.usageBlock s.header.size owner site)
  | _, _, _ => none

namespace Machine

/-- The sums of a listing, counted on over some segments. -/
def Usage.over (u : Usage) (ss : List Segment) : Usage :=
  ⟨u.used + payloadIn true ss, u.blocks + countIn true ss, u.unused + payloadIn false ss⟩

theorem Usage.over_over (u : Usage) (s : Segment) (rest : List Segment) :
    (u.over [s]).over rest = u.over (s :: rest) := by
  unfold Usage.over
  simp only [payloadIn_cons, countIn_cons]
  cases s.header.used <;> simp [payloadIn, countIn, payloadBy, countBy] <;> omega

theorem Usage.over_used (u : Usage) {s : Segment} (hs : s.header.used = true) :
    u.over [s] = { u with used := u.used + s.header.size, blocks := u.blocks + 1 } := by
  simp [Usage.over, payloadIn, countIn, payloadBy, countBy, hs]

theorem Usage.over_unused (u : Usage) {s : Segment} (hs : s.header.used = false) :
    u.over [s] = { u with unused := u.unused + s.header.size } := by
  simp [Usage.over, payloadIn, countIn, payloadBy, countBy, hs]

/-- The lines for some segments, if details are asked for. -/
def blockLines (details : Bool) (ss : List Segment) : List LogLine :=
  if details then ss.filterMap Segment.tracedLine else []

theorem blockLines_cons (details : Bool) (s : Segment) (rest : List Segment) :
    blockLines details (s :: rest) = blockLines details [s] ++ blockLines details rest := by
  cases details with
  | false => rfl
  | true =>
    show List.filterMap _ ([s] ++ rest) = _
    rw [List.filterMap_append]
    rfl

section Listing

variable {m : Machine} {u : Usage}

/-! ## Going over the segments -/

/-- A listing counts a segment as long as the sums stay words. -/
theorem run_addUsage_cons (details : Bool) (s : Segment) (rest : List Segment) (m : Machine)
    (hw : (u.over [s]).used + (u.over [s]).unused < 2 ^ 64) :
    addUsage details u (s :: rest) m =
      addUsage details (u.over [s]) rest (m.written (blockLines details [s])) := by
  rw [addUsage]
  cases hs : s.header.used with
  | true =>
    rw [u.over_used hs] at hw ⊢
    have hadd : Word.add u.used s.header.size = .ok (u.used + s.header.size) :=
      Word.add_eq_ok.mpr ⟨rfl, Nat.lt_of_le_of_lt (Nat.le_add_right _ _) hw⟩
    have htraced : s.tracedLine = usageLine s.header := by
      unfold Segment.tracedLine usageLine
      rw [hs]
      cases s.header.allocatedAt <;> cases s.header.allocatedBy <;> rfl
    rw [if_pos rfl, hadd, run_bind_ok (run_lift_ok _ _)]
    cases details with
    | false =>
      rw [if_neg Bool.false_ne_true, show blockLines false [s] = [] from rfl, written_nil]
    | true =>
      have hlines : blockLines true [s] = (usageLine s.header).toList := by
        show List.filterMap _ [s] = _
        rw [← htraced, List.filterMap_cons, List.filterMap_nil]
        cases s.tracedLine <;> rfl
      rw [if_pos rfl, hlines]
      cases usageLine s.header with
      | none => rw [Option.toList_none, written_nil]
      | some line =>
        dsimp only
        rw [run_bind_ok (run_log_written line m)]
        rfl
  | false =>
    rw [u.over_unused hs] at hw ⊢
    have hadd : Word.add u.unused s.header.size = .ok (u.unused + s.header.size) :=
      Word.add_eq_ok.mpr ⟨rfl, Nat.lt_of_le_of_lt (Nat.le_add_left _ _) hw⟩
    have hlines : blockLines details [s] = [] := by
      unfold blockLines
      rw [List.filterMap_cons, Segment.tracedLine, hs]
      cases details <;> rfl
    rw [if_neg Bool.false_ne_true, hadd, run_bind_ok (run_lift_ok _ _), hlines, written_nil]

/-- A listing adds up all segments as long as the sums stay words. -/
theorem run_addUsage (details : Bool) (ss : List Segment) (m : Machine)
    (hw : (u.over ss).used + (u.over ss).unused < 2 ^ 64) :
    addUsage details u ss m = .ok (u.over ss) (m.written (blockLines details ss)) := by
  induction ss generalizing u m with
  | nil =>
    have hlines : blockLines details [] = [] := by cases details <;> rfl
    rw [hlines, written_nil]
    rfl
  | cons s rest ih =>
    rw [← Usage.over_over] at hw ⊢
    have hstep : (u.over [s]).used + (u.over [s]).unused < 2 ^ 64 :=
      Nat.lt_of_le_of_lt (Nat.add_le_add (Nat.le_add_right _ _) (Nat.le_add_right _ _)) hw
    rw [run_addUsage_cons details s rest m hstep, ih _ hw, blockLines_cons details s rest,
      written_append]

/-- The lines that are written under the lock. -/
def countLines (details : Bool) (ss : List Segment) : List LogLine :=
  (if details then [.usageHeading] else []) ++ blockLines details ss

/-- Counting what is in use, from under the lock. -/
theorem run_count (details : Bool) {ss : List Segment} (hwalk : m.arena.walk = ⟨ss, none⟩)
    (hw : payloadIn true ss + payloadIn false ss < 2 ^ 64) :
    (do
      if details then log .usageHeading
      let w := (← get).arena.walk
      let u ← addUsage details ⟨0, 0, 0⟩ w.segments
      if let some f := w.failure then throw f
      return u : HeapM Usage) m =
        .ok (Usage.over ⟨0, 0, 0⟩ ss) (m.written (countLines details ss)) := by
  have hsum : (Usage.over ⟨0, 0, 0⟩ ss).used + (Usage.over ⟨0, 0, 0⟩ ss).unused < 2 ^ 64 := by
    simp only [Usage.over, Nat.zero_add]
    exact hw
  have hcount : ∀ n : Machine, n.arena = m.arena → (do
      let w := (← get).arena.walk
      let u ← addUsage details ⟨0, 0, 0⟩ w.segments
      if let some f := w.failure then throw f
      return u : HeapM Usage) n =
        .ok (Usage.over ⟨0, 0, 0⟩ ss) (n.written (blockLines details ss)) := by
    intro n hn
    rw [run_bind_ok (run_get n)]
    dsimp only
    rw [hn, hwalk]
    dsimp only
    rw [run_bind_ok (run_addUsage details ss n hsum)]
    rfl
  unfold countLines
  cases details with
  | false => exact hcount m rfl
  | true =>
    rw [if_pos rfl, if_pos rfl, run_bind_ok (run_log_written _ m), written_append]
    exact hcount _ rfl

/-- A percentage is found unless the sum in use is too large to be scaled. -/
theorem percent_eq (hw : u.used + u.unused < 2 ^ 64) :
    u.percent =
      if 2 ^ 64 ≤ u.used * 100 then .error (.panic .multiplyOverflow)
      else .ok (u.used * 100 / (u.used + u.unused)) := by
  unfold Usage.percent Word.mul Word.add
  by_cases hbig : 2 ^ 64 ≤ u.used * 100
  · rw [if_pos hbig, if_neg (Nat.not_lt.mpr hbig)]
    rfl
  · rw [if_neg hbig, if_pos (Nat.lt_of_not_le hbig), if_pos hw]
    rfl

/-! ## The listing -/

/-- Work under the lock that only writes lines, seen from outside. -/
theorem run_locked_written {α : Type} {body : HeapM α} {r : α} {lines : List LogLine}
    (hl : m.lock = .unlocked) (ho : m.Open) (site : CallSite)
    (hbody : ∀ j, body (m.entered site j) = .ok r ((m.entered site j).written lines)) :
    locked site body m =
      .ok r (m.written (m.onceBooted (.locking m.context.cpu) ++
        (lines ++ m.onceBooted (.unlocking m.context.cpu)))) := by
  rw [run_locked_ok hl ho site (hbody _) rfl, written_append, written_append]
  unfold left written entered
  rw [← hl]
  rfl

/-- The lines of a listing, but for the summary. -/
def listing (m : Machine) (details : Bool) (ss : List Segment) : List LogLine :=
  m.onceBooted (.locking m.context.cpu) ++
    (countLines details ss ++ m.onceBooted (.unlocking m.context.cpu))

/-- The summary of a listing. -/
def summary (ss : List Segment) : LogLine :=
  .usageTotal (payloadIn true ss) (countIn true ss)
    (payloadIn true ss * 100 / (payloadIn true ss + payloadIn false ss))

/-- Without details only the sum in use is found. -/
theorem run_usedBytes_plain (hl : m.lock = .unlocked) (ho : m.Open) {ss : List Segment}
    (hwalk : m.arena.walk = ⟨ss, none⟩)
    (hw : payloadIn true ss + payloadIn false ss < 2 ^ 64) (site : CallSite) :
    usedBytes false site m = .ok (payloadIn true ss) (m.written (m.listing false ss)) := by
  have hlocked := run_locked_written hl ho site fun j =>
    run_count (m := m.entered site j) false hwalk hw
  have hused : (Usage.over ⟨0, 0, 0⟩ ss).used = payloadIn true ss := Nat.zero_add _
  unfold usedBytes reporting tryUsedBytes
  refine run_tryCatch_ok ((run_bind_ok hlocked).trans ?_)
  rw [← hused]
  rfl

/-- With details the blocks and the summary are written, unless the sum in use is too
large for its percentage. -/
theorem run_usedBytes_detailed (hl : m.lock = .unlocked) (ho : m.Open) {ss : List Segment}
    (hwalk : m.arena.walk = ⟨ss, none⟩)
    (hw : payloadIn true ss + payloadIn false ss < 2 ^ 64) (site : CallSite) :
    usedBytes true site m =
      if 2 ^ 64 ≤ payloadIn true ss * 100 then
        .error (.panic .multiplyOverflow) (m.written (m.listing true ss))
      else .ok (payloadIn true ss) (m.written (m.listing true ss ++ [summary ss])) := by
  have hlocked := run_locked_written hl ho site fun j =>
    run_count (m := m.entered site j) true hwalk hw
  have hu : Usage.over ⟨0, 0, 0⟩ ss =
      ⟨payloadIn true ss, countIn true ss, payloadIn false ss⟩ := by
    simp [Usage.over]
  rw [hu] at hlocked
  have hpercent := percent_eq (u := ⟨payloadIn true ss, countIn true ss, payloadIn false ss⟩) hw
  unfold usedBytes reporting
  by_cases hbig : 2 ^ 64 ≤ payloadIn true ss * 100
  · rw [if_pos hbig] at hpercent ⊢
    have hfails : tryUsedBytes true site m =
        .error (.panic .multiplyOverflow) (m.written (m.listing true ss)) := by
      refine (run_bind_ok hlocked).trans ?_
      dsimp only
      rw [if_pos rfl, hpercent]
      rfl
    exact run_tryCatch_error hfails
  · rw [if_neg hbig] at hpercent ⊢
    refine run_tryCatch_ok ((run_bind_ok hlocked).trans ?_)
    dsimp only
    rw [if_pos rfl, hpercent, run_bind_ok (run_lift_ok _ _), run_bind_ok (run_log_written _ _),
      written_append m (m.listing true ss)]
    rfl

end Listing

end Machine

end GuardedHeap
