/-
  Proofs/Traversal.lean --- walks over memory that says anything at all.

  WHAT THIS FILE IS FOR.  Whoever looks for a segment walks from the first header on and
  follows the next links.  The headers lie in memory that clients can reach, so a link may
  lead anywhere: ahead, back, to itself, past the top, to the end of the address space.
  Here a walk is taken apart into single steps (`advance`), each from the place where the
  one before left it, as a caller takes them that stops when it has seen enough.

  WHAT IS PROVED.  Whatever the memory holds, a walk is over after a step per 64 bytes of
  the arena.  The places where it stands rise by at least a header and leave room for a
  whole one, nothing else is read, and its sums are exact.  It fails with one of two
  detected errors, and a failure is its end.  The walk of the audit and the first-fit
  search are made of these steps.
-/
import GuardedHeap.Proofs.Client

set_option autoImplicit false

namespace GuardedHeap

namespace Arena

variable {a : Arena} {off : Nat}

/-! ## A step at a time -/

/-- The segment where a walk stands, or why there is none, and where it stands then.  A
walk that has ended or failed stands nowhere. -/
def advance (a : Arena) : Option Nat → Option (Except Fault Segment) × Option Nat
  | none => (none, none)
  | some off =>
    match a.step off with
    | .ok (s, next) => (some (.ok s), next)
    | .error e => (some (.error e), none)

/-- Where a walk from the first header stands after some steps. -/
def standing (a : Arena) : Nat → Option Nat
  | 0 => some 0
  | n + 1 => (a.advance (a.standing n)).2

/-- What a step of that walk yields. -/
def item (a : Arena) (n : Nat) : Option (Except Fault Segment) := (a.advance (a.standing n)).1

/-- The search for a segment that can hold `size` bytes, with at most so many steps. -/
def scan (a : Arena) (size : Nat) : Nat → Option Nat → Except Fault (Option Nat)
  | 0, _ => .ok none
  | turns + 1, place =>
    match a.advance place with
    | (none, _) => .ok none
    | (some (.error e), _) => .error e
    | (some (.ok s), next) =>
      if Fits size s then .ok (some s.offset) else a.scan size turns next

theorem item_of_ok {n : Nat} {s : Segment} {next : Option Nat} (hn : a.standing n = some off)
    (hs : a.step off = .ok (s, next)) : a.item n = some (.ok s) ∧ a.standing (n + 1) = next := by
  rw [item, standing, hn, advance, hs]
  exact ⟨rfl, rfl⟩

theorem item_of_error {n : Nat} {e : Fault} (hn : a.standing n = some off)
    (hs : a.step off = .error e) :
    a.item n = some (.error e) ∧ a.standing (n + 1) = none := by
  rw [item, standing, hn, advance, hs]
  exact ⟨rfl, rfl⟩

theorem item_of_nowhere {n : Nat} (hn : a.standing n = none) :
    a.item n = none ∧ a.standing (n + 1) = none := by
  rw [item, standing, hn]
  exact ⟨rfl, rfl⟩

theorem standing_over {n k : Nat} (hn : a.standing n = none) (hk : n ≤ k) :
    a.standing k = none := by
  induction k, hk using Nat.le_induction with
  | base => exact hn
  | succ k _ ih => exact (item_of_nowhere ih).2

/-! ## What a single step meets -/

/-- The test of a next link in words: both sums are checked for leaving their range. -/
def Leads (a : Arena) (off : Nat) (h : Header) (next : Nat) : Prop :=
  (do Word.add (← Word.add off headerSize) h.size) = .ok next ∧
    ∃ stop, Word.add next headerSize = .ok stop ∧ stop ≤ a.top

/-- Why the segment at an offset cannot be had. -/
inductive Unreadable (a : Arena) (off : Nat) : Fault → Prop
  /-- the guard is gone -/
  | guard : Header.guardAt a.memory off ≠ guardWord →
    Unreadable a off (.detected (.corrupted (a.addr off) (Header.sizeAt a.memory off)
      (Header.guardAt a.memory off)))
  /-- the next link is none -/
  | link {next : Nat} : Header.guardAt a.memory off = guardWord →
    (Header.load a.memory off).next = some next →
    ¬ a.Leads off (Header.load a.memory off) next → Unreadable a off (a.brokenLink off next)

/-- The sums of the test are exact: where one leaves the range the link is refused anyway. -/
theorem leads_iff (htop : a.top < 2 ^ 64) {h : Header} {next : Nat} :
    a.Leads off h next ↔ next = off + headerSize + h.size ∧ next + headerSize ≤ a.top := by
  constructor
  · rintro ⟨hsum, stop, hstop, hle⟩
    obtain ⟨rfl, -⟩ := Word.add_eq_ok.mp hstop
    cases hfirst : Word.add off headerSize with
    | error e =>
      rw [hfirst] at hsum
      cases hsum
    | ok payload =>
      rw [hfirst] at hsum
      obtain ⟨rfl, -⟩ := Word.add_eq_ok.mp hfirst
      obtain ⟨rfl, -⟩ := Word.add_eq_ok.mp hsum
      exact ⟨rfl, hle⟩
  · rintro ⟨rfl, hle⟩
    have hfirst : Word.add off headerSize = .ok (off + headerSize) :=
      Word.add_eq_ok.mpr ⟨rfl, by omega⟩
    have hsum : Word.add (off + headerSize) h.size = .ok (off + headerSize + h.size) :=
      Word.add_eq_ok.mpr ⟨rfl, by omega⟩
    refine ⟨?_, _, Word.add_eq_ok.mpr ⟨rfl, by omega⟩, hle⟩
    rw [hfirst]
    exact hsum

/-- Where a whole header fits, reading stops at the guard only. -/
theorem read_of_room (hroom : off + headerSize ≤ a.top) (htop : a.top < 2 ^ 64) :
    a.read off = if Header.guardAt a.memory off = guardWord then .ok (Header.load a.memory off)
      else .error (.detected (.corrupted (a.addr off) (Header.sizeAt a.memory off)
        (Header.guardAt a.memory off))) := by
  have hstop : Word.add off headerSize = .ok (off + headerSize) :=
    Word.add_eq_ok.mpr ⟨rfl, by omega⟩
  rw [read, hstop]
  show (if a.top < off + headerSize then _ else _) = _
  rw [if_neg (Nat.not_lt.mpr hroom)]
  rfl

/-- The next link of a header is followed, or it fails the test. -/
theorem successor_cases (htop : a.top < 2 ^ 64) (off : Nat) (h : Header) :
    (a.successor off h = .ok h.next ∧ ∀ n ∈ h.next, a.Leads off h n) ∨
      ∃ next, h.next = some next ∧ ¬ a.Leads off h next ∧
        a.successor off h = .error (a.brokenLink off next) := by
  unfold successor
  cases hnext : h.next with
  | none => exact .inl ⟨rfl, fun n hn => by cases hn⟩
  | some next =>
    by_cases hc : next = off + headerSize + h.size ∧ next + headerSize ≤ a.top
    · exact .inl ⟨if_pos hc, fun n hn => Option.mem_some.mp hn ▸ (leads_iff htop).mpr hc⟩
    · exact .inr ⟨next, rfl, fun h => hc ((leads_iff htop).mp h), if_neg hc⟩

/-- A step where a whole header fits: the segment as memory has it, with a next link that
passed the test, or one of the two errors. -/
theorem step_cases (hroom : off + headerSize ≤ a.top) (htop : a.top < 2 ^ 64) :
    (∃ h, h = Header.load a.memory off ∧ Header.guardAt a.memory off = guardWord ∧
      (∀ n ∈ h.next, a.Leads off h n) ∧ a.step off = .ok (⟨off, h⟩, h.next)) ∨
      ∃ e, a.Unreadable off e ∧ a.step off = .error e := by
  have hread := read_of_room hroom htop
  by_cases hguard : Header.guardAt a.memory off = guardWord
  · rw [if_pos hguard] at hread
    rcases successor_cases htop off (Header.load a.memory off) with
      ⟨hs, hleads⟩ | ⟨next, hnext, hleads, hs⟩
    · refine .inl ⟨_, rfl, hguard, hleads, ?_⟩
      unfold step
      rw [hread]
      simp only [bind, Except.bind, hs]
      rfl
    · refine .inr ⟨_, .link hguard hnext hleads, ?_⟩
      unfold step
      rw [hread]
      simp only [bind, Except.bind, hs]
  · rw [if_neg hguard] at hread
    refine .inr ⟨_, .guard hguard, ?_⟩
    unfold step
    rw [hread]
    rfl

/-- A step looks at the header where the walk stands, and at nothing else in memory. -/
theorem step_congr {b : Arena} (hroom : off + headerSize ≤ a.top) (htop : a.top < 2 ^ 64)
    (hw : b.window = a.window) (ht : b.top = a.top)
    (hsame : ∀ i, off ≤ i → i < off + headerSize → b.memory.get i = a.memory.get i) :
    b.step off = a.step off := by
  have hload : Header.load b.memory off = Header.load a.memory off := Header.load_congr hsame
  have hguard : Header.guardAt b.memory off = Header.guardAt a.memory off :=
    Header.guardAt_congr fun i h1 h2 => hsame i h1 (by simp only [headerSize]; omega)
  have hsize : Header.sizeAt b.memory off = Header.sizeAt a.memory off :=
    Memory.word_congr fun i h1 h2 => hsame i (by omega) (by simp only [headerSize]; omega)
  have haddr : b.addr = a.addr := by
    funext x
    rw [addr, addr, hw]
  have hread : b.read off = a.read off := by
    rw [read_of_room (by omega) (by omega), read_of_room hroom htop, hload, hguard, hsize, haddr]
  have hsuccessor (h : Header) : b.successor off h = a.successor off h := by
    unfold successor brokenLink
    rw [ht, haddr]
  unfold step
  rw [hread]
  simp only [hsuccessor]

/-! ## The whole walk -/

/-- After some steps a walk has passed a header for each, and a whole one fits where it
stands. -/
theorem standing_room (hroom : headerSize ≤ a.top) {n : Nat} (hn : a.standing n = some off) :
    n * headerSize ≤ off ∧ off + headerSize ≤ a.top := by
  induction n generalizing off with
  | zero =>
    cases hn
    omega
  | succ n ih =>
    cases hbefore : a.standing n with
    | none =>
      rw [(item_of_nowhere hbefore).2] at hn
      cases hn
    | some before =>
      obtain ⟨h1, -⟩ := ih hbefore
      cases hs : a.step before with
      | error e =>
        rw [(item_of_error hbefore hs).2] at hn
        cases hn
      | ok r =>
        obtain ⟨s, next⟩ := r
        obtain ⟨-, -, hsucc⟩ := step_eq_ok hs
        rw [(item_of_ok hbefore hs).2] at hn
        subst hn
        obtain ⟨-, h2, h3⟩ := successor_eq_some hsucc
        simp only [headerSize] at *
        omega

/-- From one place to the next it is at least a header. -/
theorem standing_step {n x y : Nat} (hx : a.standing n = some x)
    (hy : a.standing (n + 1) = some y) : x + headerSize ≤ y := by
  cases hs : a.step x with
  | error e =>
    rw [(item_of_error hx hs).2] at hy
    cases hy
  | ok r =>
    obtain ⟨s, next⟩ := r
    obtain ⟨-, -, hsucc⟩ := step_eq_ok hs
    rw [(item_of_ok hx hs).2] at hy
    subst hy
    obtain ⟨-, h2, -⟩ := successor_eq_some hsucc
    omega

/-- So it is to any later one. -/
theorem standing_rises {n k x y : Nat} (hk : n < k) (hx : a.standing n = some x)
    (hy : a.standing k = some y) : x + headerSize ≤ y := by
  induction k, hk using Nat.le_induction generalizing y with
  | base => exact standing_step hx hy
  | succ k _ ih =>
    cases hz : a.standing k with
    | none =>
      rw [(item_of_nowhere hz).2] at hy
      cases hy
    | some z =>
      have h1 := ih hz
      have h2 := standing_step hz hy
      omega

theorem item_past {k : Nat} (hover : a.standing (k + 1) = none) (n : Nat) :
    a.item (k + (n + 1)) = none :=
  (item_of_nowhere (standing_over hover (by omega))).1

theorem item_cases (hroom : headerSize ≤ a.top) (htop : a.top < 2 ^ 64) {n : Nat}
    (hn : a.standing n = some off) :
    (∃ h, h = Header.load a.memory off ∧ Header.guardAt a.memory off = guardWord ∧
      (∀ next ∈ h.next, a.Leads off h next) ∧ a.item n = some (.ok ⟨off, h⟩) ∧
        a.standing (n + 1) = h.next) ∨
      ∃ e, a.Unreadable off e ∧ a.item n = some (.error e) ∧ a.standing (n + 1) = none := by
  rcases step_cases (standing_room hroom hn).2 htop with ⟨h, hh, hguard, hleads, hs⟩ | ⟨e, he, hs⟩
  · exact .inl ⟨h, hh, hguard, hleads, item_of_ok hn hs⟩
  · exact .inr ⟨e, he, item_of_error hn hs⟩

theorem standing_of_item {n : Nat} {r : Except Fault Segment} (hr : a.item n = some r) :
    ∃ off, a.standing n = some off := by
  cases hn : a.standing n with
  | none =>
    rw [(item_of_nowhere hn).1] at hr
    cases hr
  | some off => exact ⟨off, rfl⟩

/-! ## What a walk reads -/

/-- Another arena with the same headers where a walk over the first one stands. -/
structure SameHeaders (a b : Arena) : Prop where
  window_eq : b.window = a.window
  top_eq : b.top = a.top
  get_eq : ∀ n off, a.standing n = some off → ∀ i, off ≤ i → i < off + headerSize →
    b.memory.get i = a.memory.get i

section SameHeaders

variable {b : Arena} (hroom : headerSize ≤ a.top) (htop : a.top < 2 ^ 64) (hb : a.SameHeaders b)

include hroom htop hb

theorem advance_congr (n : Nat) : b.advance (a.standing n) = a.advance (a.standing n) := by
  cases hn : a.standing n with
  | none => rfl
  | some off =>
    have hstep := step_congr (standing_room hroom hn).2 htop hb.window_eq hb.top_eq
      (hb.get_eq n off hn)
    rw [advance, advance, hstep]

theorem standing_congr (n : Nat) : b.standing n = a.standing n := by
  induction n with
  | zero => rfl
  | succ n ih => rw [standing, standing, ih, advance_congr hroom htop hb]

theorem item_congr (n : Nat) : b.item n = a.item n := by
  rw [item, item, standing_congr hroom htop hb, advance_congr hroom htop hb]

theorem scan_congr (size turns n : Nat) :
    b.scan size turns (a.standing n) = a.scan size turns (a.standing n) := by
  induction turns generalizing n with
  | zero => rfl
  | succ turns ih =>
    have hthen := ih (n + 1)
    rw [scan, scan, advance_congr hroom htop hb]
    rw [standing] at hthen
    cases hr : a.advance (a.standing n) with
    | mk r next =>
      rw [hr] at hthen
      rcases r with _ | e | s
      · rfl
      · rfl
      · by_cases hfits : Fits size s
        · simp only [if_pos hfits]
        · simpa only [if_neg hfits] using hthen

end SameHeaders

/-! ## What is made of the steps -/

/-- The walk from a place has the segments that the steps yield from there on, and fails
where one of them does. -/
theorem walkFrom_items (a : Arena) (off k : Nat) (hk : a.standing k = some off) :
    (∀ n s, (a.walkFrom off).segments[n]? = some s ↔ a.item (k + n) = some (.ok s)) ∧
      ∀ e, (a.walkFrom off).failure = some e ↔ ∃ n, a.item (k + n) = some (.error e) := by
  fun_induction walkFrom a off generalizing k with
  | case1 off f hs =>
    obtain ⟨hitem, hover⟩ := item_of_error hk hs
    refine ⟨fun n s => ?_, fun e => ?_⟩
    · cases n with
      | zero => simp [hitem]
      | succ n => simp [item_past hover n]
    · constructor
      · intro he
        exact ⟨0, Option.some.inj he ▸ hitem⟩
      · rintro ⟨n, hn⟩
        cases n with
        | zero => exact Except.error.inj (Option.some.inj (hitem.symm.trans hn)) ▸ rfl
        | succ n => exact absurd (hn.symm.trans (item_past hover n)) (Option.some_ne_none _)
  | case2 off s hs =>
    obtain ⟨hitem, hover⟩ := item_of_ok hk hs
    refine ⟨fun n t => ?_, fun e => ?_⟩
    · cases n with
      | zero => simp [hitem]
      | succ n => simp [item_past hover n]
    · constructor
      · intro he
        cases he
      · rintro ⟨n, hn⟩
        cases n with
        | zero => cases Option.some.inj (hitem.symm.trans hn)
        | succ n => exact absurd (hn.symm.trans (item_past hover n)) (Option.some_ne_none _)
  | case3 off s next hs rest ih =>
    obtain ⟨hitem, hthen⟩ := item_of_ok hk hs
    obtain ⟨hsegments, hfailure⟩ := ih (k + 1) hthen
    have hshift (n : Nat) : k + (n + 1) = k + 1 + n := by omega
    refine ⟨fun n t => ?_, fun e => ?_⟩
    · cases n with
      | zero => simp [hitem]
      | succ n =>
        rw [hshift, ← hsegments, List.getElem?_cons_succ]
    · refine (hfailure e).trans ⟨?_, ?_⟩
      · rintro ⟨n, hn⟩
        exact ⟨n + 1, (hshift n).symm ▸ hn⟩
      · rintro ⟨n, hn⟩
        cases n with
        | zero => cases Option.some.inj (hitem.symm.trans hn)
        | succ n => exact ⟨n, hshift n ▸ hn⟩

/-- What a walk decides of the search for `size` bytes. -/
def Walk.found (w : Walk) (size : Nat) : Except Fault (Option Nat) :=
  match w.segments.find? (fun s => Fits size s) with
  | some s => .ok (some s.offset)
  | none =>
    match w.failure with
    | some f => .error f
    | none => .ok none

theorem Walk.found_of_fits {size : Nat} {s : Segment} (hs : Fits size s) (ss : List Segment)
    (f : Option Fault) : Walk.found ⟨s :: ss, f⟩ size = .ok (some s.offset) := by
  unfold Walk.found
  rw [List.find?_cons_of_pos (by simpa using hs)]

theorem Walk.found_cons {size : Nat} {s : Segment} (hs : ¬ Fits size s) (ss : List Segment)
    (f : Option Fault) : Walk.found ⟨s :: ss, f⟩ size = Walk.found ⟨ss, f⟩ size := by
  unfold Walk.found
  rw [List.find?_cons_of_neg (by simpa using hs)]

/-- The search from a place ends before its turns do, as the walk from there decides. -/
theorem scan_walkFrom (a : Arena) (size off turns : Nat) (hroom : off + headerSize ≤ a.top)
    (hturns : (a.top - off) / headerSize ≤ turns) :
    a.scan size turns (some off) = Walk.found (a.walkFrom off) size := by
  have hone : 1 ≤ (a.top - off) / headerSize := by
    simp only [headerSize] at *
    omega
  obtain ⟨turns, rfl⟩ : ∃ t, turns = t + 1 := ⟨turns - 1, by omega⟩
  fun_induction walkFrom a off generalizing turns with
  | case1 off f hs =>
    rw [scan, advance, hs]
    rfl
  | case2 off s hs =>
    rw [scan, advance, hs]
    by_cases hfits : Fits size s
    · simp only [if_pos hfits, Walk.found_of_fits hfits]
    · simp only [if_neg hfits, Walk.found_cons hfits]
      cases turns <;> rfl
  | case3 off s next hs rest ih =>
    obtain ⟨-, -, hsucc⟩ := step_eq_ok hs
    obtain ⟨-, h2, h3⟩ := successor_eq_some hsucc
    rw [scan, advance, hs]
    by_cases hfits : Fits size s
    · simp only [if_pos hfits, Walk.found_of_fits hfits]
    · have hleft : 1 ≤ (a.top - next) / headerSize := by
        simp only [headerSize] at *
        omega
      have hless : (a.top - next) / headerSize ≤ turns := by
        simp only [headerSize] at *
        omega
      obtain ⟨turns, rfl⟩ : ∃ t, turns = t + 1 := ⟨turns - 1, by omega⟩
      simp only [if_neg hfits, Walk.found_cons hfits]
      exact ih h3 hleft turns hless

/-- The first-fit search is over after a turn per header that fits. -/
theorem firstFit_eq_scan (a : Arena) (hroom : headerSize ≤ a.top) (size : Nat) :
    a.firstFit size = a.scan size (a.top / headerSize) (some 0) := by
  have hturns : (a.top - 0) / headerSize ≤ a.top / headerSize := by rw [Nat.sub_zero]
  rw [scan_walkFrom a size 0 _ (by omega) hturns]
  rfl

/-- A search that fails does so where the walk does. -/
theorem failure_of_firstFit {size : Nat} {e : Fault} (h : a.firstFit size = .error e) :
    a.walk.failure = some e := by
  unfold firstFit at h
  split at h
  · cases h
  · split at h
    · rename_i f hf
      rw [hf, Except.error.inj h]
    · cases h

/-! ## Any memory -/

/-- What holds of walks over an arena whatever its memory says. -/
structure Confined (a : Arena) : Prop where
  /-- a walk is over after a step per header that fits -/
  finite : ∀ n, a.top / headerSize ≤ n → a.item n = none
  /-- it stands where there is room for a whole header -/
  room : ∀ n off, a.standing n = some off → off + headerSize ≤ a.top
  /-- later places are higher by at least a header -/
  rising : ∀ n k x y, n < k → a.standing n = some x → a.standing k = some y →
    x + headerSize ≤ y
  /-- what it yields stands there in memory -/
  yields : ∀ n s, a.item n = some (.ok s) → a.standing n = some s.offset ∧
    Header.guardAt a.memory s.offset = guardWord ∧ s.header = Header.load a.memory s.offset
  /-- it goes on where a link leads that passes the test with checked sums -/
  follows : ∀ n s next, a.item n = some (.ok s) →
    (a.standing (n + 1) = some next ↔ s.header.next = some next) ∧
      (s.header.next = some next → a.Leads s.offset s.header next)
  /-- it fails for a guard or for a link, and a failure is the last that it yields -/
  fails : ∀ n e, a.item n = some (.error e) →
    (∃ off, a.standing n = some off ∧ a.Unreadable off e) ∧ ∀ k, n < k → a.item k = none
  /-- nothing else is read -/
  reads : ∀ b, a.SameHeaders b →
    (∀ n, b.item n = a.item n) ∧ ∀ size, b.firstFit size = a.firstFit size
  /-- the walk over the whole arena is this one -/
  walk : (∀ n s, a.walk.segments[n]? = some s ↔ a.item n = some (.ok s)) ∧
    ∀ e, a.walk.failure = some e ↔ ∃ n, a.item n = some (.error e)
  /-- and the first-fit search takes its steps, one per header that fits at most -/
  search : ∀ size, a.firstFit size = a.scan size (a.top / headerSize) (some 0) ∧
    ∀ e, a.firstFit size = .error e → ∃ n off, a.standing n = some off ∧ a.Unreadable off e

/-- Walks end and stay inside the arena, whatever its memory says. -/
theorem confined {a : Arena} (hroom : headerSize ≤ a.top) (htop : a.top < 2 ^ 64) :
    a.Confined where
  finite := by
    intro n hn
    cases hplace : a.standing n with
    | none => exact (item_of_nowhere hplace).1
    | some off =>
      have := standing_room hroom hplace
      simp only [headerSize] at *
      omega
  room n off hn := (standing_room hroom hn).2
  rising n k x y hk hx hy := standing_rises hk hx hy
  yields := by
    intro n s hs
    obtain ⟨off, hn⟩ := standing_of_item hs
    rcases item_cases hroom htop hn with ⟨h, hh, hguard, -, hitem, -⟩ | ⟨e, -, hitem, -⟩
    · cases hitem.symm.trans hs
      exact ⟨hn, hguard, hh⟩
    · cases hitem.symm.trans hs
  follows := by
    intro n s next hs
    obtain ⟨off, hn⟩ := standing_of_item hs
    rcases item_cases hroom htop hn with ⟨h, -, -, hleads, hitem, hthen⟩ | ⟨e, -, hitem, -⟩
    · cases hitem.symm.trans hs
      rw [hthen]
      exact ⟨Iff.rfl, fun hnext => hleads next hnext⟩
    · cases hitem.symm.trans hs
  fails := by
    intro n e he
    obtain ⟨off, hn⟩ := standing_of_item he
    rcases item_cases hroom htop hn with ⟨h, -, -, -, hitem, -⟩ | ⟨f, hf, hitem, hover⟩
    · cases hitem.symm.trans he
    · cases hitem.symm.trans he
      exact ⟨⟨off, hn, hf⟩, fun k hk => (item_of_nowhere (standing_over hover hk)).1⟩
  reads := by
    intro b hb
    have ht := hb.top_eq
    refine ⟨item_congr hroom htop hb, fun size => ?_⟩
    calc b.firstFit size = b.scan size (b.top / headerSize) (some 0) :=
          b.firstFit_eq_scan (by omega) size
      _ = a.scan size (a.top / headerSize) (some 0) := by
          rw [ht]
          exact scan_congr hroom htop hb size _ 0
      _ = a.firstFit size := (a.firstFit_eq_scan hroom size).symm
  walk := by
    obtain ⟨hsegments, hfailure⟩ := walkFrom_items a 0 0 rfl
    simp only [Nat.zero_add] at hsegments hfailure
    exact ⟨hsegments, hfailure⟩
  search := by
    intro size
    refine ⟨a.firstFit_eq_scan hroom size, fun e he => ?_⟩
    obtain ⟨n, hn⟩ := ((walkFrom_items a 0 0 rfl).2 e).mp (failure_of_firstFit he)
    rw [Nat.zero_add] at hn
    obtain ⟨off, hplace⟩ := standing_of_item hn
    rcases item_cases hroom htop hplace with ⟨h, -, -, -, hitem, -⟩ | ⟨f, hf, hitem, -⟩
    · cases hitem.symm.trans hn
    · cases hitem.symm.trans hn
      exact ⟨n, off, hplace, hf⟩

/-- The small heap with a first header whose next link leads back to it. -/
def loopedArena : Arena :=
  { World.smallWorld.machine.arena with
    memory := World.smallWorld.machine.arena.memory.writeWord 24 8 0 }

/-- A walk over it fails at once and is over. -/
theorem confined_loopedArena :
    headerSize ≤ loopedArena.top ∧ loopedArena.top < 2 ^ 64 ∧
      loopedArena.item 0 = some (.error (loopedArena.brokenLink 0 0)) ∧
      loopedArena.Confined := by
  have hroom : headerSize ≤ loopedArena.top := by decide +kernel
  have htop : loopedArena.top < 2 ^ 64 := by decide +kernel
  have hstep : loopedArena.step 0 = .error (loopedArena.brokenLink 0 0) := by
    decide +kernel
  exact ⟨hroom, htop, (item_of_error rfl hstep).1, confined hroom htop⟩

end Arena

end GuardedHeap
