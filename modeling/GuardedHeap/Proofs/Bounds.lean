/-
  Proofs/Bounds.lean --- how far a first-fit search and what follows it reach.

  WHAT THIS FILE IS FOR.  A search believes no header, so what it finds is inside the heap
  only as far as the links say that it passed.  A link has to lead to the end of the
  segment and leave room for a header below the top.  Neither the granule nor the size of
  a segment without a successor is looked at.

  WHAT IS PROVED.  The places a search comes to leave room for a header below the top, and
  they lie on the granule as far as the sizes of the segments that it passed do.  What it
  finds ends below the top, with room for a header behind it, or is the last segment of the
  walk.  Where it ends at the top or below, checking it, splitting it and giving it out
  neither sees nor changes a byte at or above the top.
-/
import GuardedHeap.Proofs.Placement
import GuardedHeap.Proofs.Overflow

set_option autoImplicit false

namespace GuardedHeap

/-! ## Two runs that end alike -/

/-- Two runs returned the same and left states that satisfy `Q`, or failed in the same way
and left states that satisfy `E`. -/
inductive Twins {σ α : Type} (Q : α → σ → σ → Prop) (E : σ → σ → Prop) :
    EStateM.Result Fault σ α → EStateM.Result Fault σ α → Prop
  | returned {r : α} {s t : σ} : Q r s t → Twins Q E (.ok r s) (.ok r t)
  | failed {e : Fault} {s t : σ} : E s t → Twins Q E (.error e s) (.error e t)

namespace Twins

variable {σ α β : Type} {Q : α → σ → σ → Prop} {P : β → σ → σ → Prop} {E : σ → σ → Prop} {s t : σ}

/-- What follows continues from there. -/
theorem bind {x y : EStateM Fault σ α} {f g : α → EStateM Fault σ β} (h : Twins Q E (x s) (y t))
    (hf : ∀ r s' t', Q r s' t' → Twins P E (f r s') (g r t')) :
    Twins P E ((x >>= f) s) ((y >>= g) t) := by
  generalize hx : x s = rx at h
  generalize hy : y t = ry at h
  cases h with
  | returned hQ =>
    rw [run_bind_ok hx, run_bind_ok hy]
    exact hf _ _ _ hQ
  | failed hE =>
    rw [run_bind_error hx, run_bind_error hy]
    exact .failed hE

theorem get {f g : σ → EStateM Fault σ α} (h : Twins Q E (f s s) (g t t)) :
    Twins Q E ((get >>= f) s) ((get >>= g) t) := h

theorem lift {x : Except Fault β} {f g : β → EStateM Fault σ α} (hE : E s t)
    (h : ∀ r, x = .ok r → Twins Q E (f r s) (g r t)) :
    Twins Q E ((liftM x >>= f) s) ((liftM x >>= g) t) := by
  cases x with
  | ok r => exact h r rfl
  | error e => exact .failed hE

end Twins

namespace Arena

/-! ## Bytes at and above the top -/

/-- Two arenas are the same but for the bytes at and above the top. -/
structure SameBelow (a b : Arena) : Prop where
  window_eq : b.window = a.window
  top_eq : b.top = a.top
  last_eq : b.last = a.last
  below : Agree a.memory b.memory 0 a.top

/-- Two arenas were made from `a` and `b` in the same way, without a change of the bytes at
and above the top. -/
structure Alongside (a b a' b' : Arena) : Prop where
  left : a.Inside a'
  right : b.Inside b'
  same : a'.SameBelow b'

variable {a b a' b' : Arena} {off : Nat}

namespace SameBelow

variable (h : a.SameBelow b)

include h

theorem alongside : Alongside a b a b := ⟨.refl a, .refl b, h⟩

theorem addr_eq : b.addr = a.addr := by
  funext x
  rw [addr, addr, h.window_eq]

theorem read_eq (off : Nat) : b.read off = a.read off :=
  read_congr h.window_eq h.top_eq fun _ i _ hi => h.below i (Nat.zero_le i) (by omega)

theorem successor_eq (off : Nat) (k : Header) : b.successor off k = a.successor off k := by
  unfold successor brokenLink
  rw [h.top_eq, h.addr_eq]

theorem successorSegment_eq (off : Nat) (k : Header) :
    b.successorSegment off k = a.successorSegment off k := by
  unfold successorSegment
  simp only [h.successor_eq, h.read_eq]

/-- The search for a changed byte below the top sees no other. -/
theorem findNonzero_eq {start len : Nat} (hstop : start + len ≤ a.top) :
    b.memory.findNonzero start len = a.memory.findNonzero start len := by
  have hsame (i : Nat) (hi : i < start + len) : b.memory.get i = a.memory.get i :=
    h.below i (Nat.zero_le i) (by omega)
  cases ha : a.memory.findNonzero start len with
  | none =>
    rw [Memory.findNonzero_eq_none_iff] at ha ⊢
    intro i h1 h2
    rw [hsame i h2]
    exact ha i h1 h2
  | some i =>
    obtain ⟨h1, h2, hi, hmin⟩ := Memory.findNonzero_eq_some ha
    cases hb : b.memory.findNonzero start len with
    | none =>
      rw [Memory.findNonzero_eq_none_iff] at hb
      exact absurd ((hsame i h2).symm.trans (hb i h1 h2)) hi
    | some j =>
      obtain ⟨g1, g2, hj, hmin'⟩ := Memory.findNonzero_eq_some hb
      rw [hsame j g2] at hj
      rcases Nat.lt_trichotomy i j with hlt | rfl | hlt
      · exact absurd ((hsame i h2).symm.trans (hmin' i h1 hlt)) hi
      · rfl
      · exact absurd (hmin j g1 hlt) hj

theorem sameHeaders (hroom : headerSize ≤ a.top) : a.SameHeaders b where
  window_eq := h.window_eq
  top_eq := h.top_eq
  get_eq n off hn i _ hi := by
    have := (standing_room hroom hn).2
    exact h.below i (Nat.zero_le i) (by omega)

theorem segments_eq (hroom : headerSize ≤ a.top) (htop : a.top < 2 ^ 64) :
    b.walk.segments = a.walk.segments := by
  refine List.ext_getElem? fun n => Option.ext fun s => ?_
  have hitems := item_congr hroom htop (h.sameHeaders hroom) (0 + n)
  exact ((walkFrom_items b 0 0 rfl).1 n s).trans (hitems ▸ ((walkFrom_items a 0 0 rfl).1 n s).symm)

theorem firstFit_eq (hroom : headerSize ≤ a.top) (htop : a.top < 2 ^ 64) (size : Nat) :
    b.firstFit size = a.firstFit size := by
  have hscan := scan_congr hroom htop (h.sameHeaders hroom) size (a.top / headerSize) 0
  rw [b.firstFit_eq_scan (by rw [h.top_eq]; exact hroom), a.firstFit_eq_scan hroom, h.top_eq]
  exact hscan

end SameBelow

theorem sameBelow_set {i : Nat} (hi : a.top ≤ i) (value : UInt8) :
    a.SameBelow { a with memory := a.memory.set i value } := by
  refine ⟨rfl, rfl, rfl, fun j _ hj => ?_⟩
  show (a.memory.set i value).get j = _
  rw [Memory.get_set, if_neg (by omega)]

namespace Alongside

theorem edit (h : Alongside a b a' b') {m n : Memory}
    (hsame : ∀ i, b'.memory.get i = a'.memory.get i → n.get i = m.get i)
    (hleft : ∀ i, a'.top ≤ i → m.get i = a'.memory.get i)
    (hright : ∀ i, a'.top ≤ i → n.get i = b'.memory.get i) :
    Alongside a b { a' with memory := m } { b' with memory := n } where
  left := h.left.trans ⟨rfl, rfl, hleft⟩
  right := h.right.trans ⟨rfl, rfl, fun i hi => hright i (by rw [← h.same.top_eq]; exact hi)⟩
  same := ⟨h.same.window_eq, h.same.top_eq, h.same.last_eq,
    fun i hi hlt => hsame i (h.same.below i hi hlt)⟩

theorem clear (h : Alongside a b a' b') {len : Nat} (hstop : off + len ≤ a'.top) :
    Alongside a b { a' with memory := a'.memory.zero off len }
      { b' with memory := b'.memory.zero off len } := by
  refine h.edit (fun i hi => ?_) (fun i hi => ?_) fun i hi => ?_
  · rw [Memory.get_zero, Memory.get_zero, hi]
  · rw [Memory.get_zero, if_neg (by omega)]
  · rw [Memory.get_zero, if_neg (by omega)]

end Alongside

/-- Two runs on arenas that were made alongside of `a` and `b` leave such arenas. -/
abbrev Level {α : Type} (a b : Arena) :
    EStateM.Result Fault Arena α → EStateM.Result Fault Arena α → Prop :=
  Twins (fun _ => Alongside a b) (Alongside a b)

theorem level_writeHeader (h : Alongside a b a' b') (hroom : off + headerSize ≤ a.top)
    (k : Header) : Level a b (writeHeader off k a') (writeHeader off k b') := by
  rw [← h.left.top_eq] at hroom
  exact .returned <| h.edit (fun _ hi => Header.get_store_congr off k hi)
    (fun _ hi => Header.get_store_of_outside k (.inr (Nat.le_trans hroom hi)))
    (fun _ hi => Header.get_store_of_outside k (.inr (Nat.le_trans hroom hi)))

theorem level_setLast (h : Alongside a b a' b') (off : Nat) :
    Level a b (setLast off a') (setLast off b') :=
  .returned ⟨h.left.trans ⟨rfl, rfl, fun _ _ => rfl⟩, h.right.trans ⟨rfl, rfl, fun _ _ => rfl⟩,
    ⟨h.same.window_eq, h.same.top_eq, rfl, h.same.below⟩⟩

theorem level_amend (h : Alongside a b a' b') (off : Nat) (f : Header → Header) :
    Level a b (amend off f a') (amend off f b') := by
  unfold amend
  refine .get ?_
  rw [h.same.read_eq]
  refine .lift h fun k hk => ?_
  have hroom := (read_eq_ok hk).1
  rw [h.left.top_eq] at hroom
  exact (level_writeHeader h hroom (f k)).bind fun _ _ _ h' => .returned h'

theorem level_linkBack (h : Alongside a b a' b') {next : Option Segment}
    (hnext : ∀ s, next = some s → s.offset + headerSize ≤ a.top) (off : Nat) :
    Level a b (linkBack next off a') (linkBack next off b') := by
  cases next with
  | none => exact level_setLast h off
  | some s => exact level_writeHeader h (hnext s rfl) _

/-- Taking a segment that ends at the top or below into use writes below the top: its own
header, that of what is left over, and that of the segment behind. -/
theorem level_occupy (h : Alongside a b a' b') {k : Header} (hread : a'.read off = .ok k)
    (hstop : off + headerSize + k.size ≤ a.top) (size : Nat) :
    Level a b (occupy off size a') (occupy off size b') := by
  unfold occupy
  refine .get ?_
  rw [h.same.read_eq, hread]
  refine .lift h fun k' hk => ?_
  cases hk
  dsimp only
  by_cases hgran : size % granule ≠ 0
  · rw [if_pos hgran, if_pos hgran]
    exact .failed h
  · rw [if_neg hgran, if_neg hgran]
    by_cases hsmall : k.size < size
    · rw [if_pos hsmall, if_pos hsmall]
      exact .failed h
    · rw [if_neg hsmall, if_neg hsmall, h.same.successorSegment_eq]
      refine .lift h fun next hsucc => ?_
      have hhead : off + headerSize ≤ a.top := by omega
      by_cases hsplit : headerSize < k.size - size
      · simp only [if_pos hsplit]
        refine .lift h fun payload hpayload => .lift h fun split hsum => ?_
        have hplace : split = off + headerSize + size := by
          rw [← (Word.add_eq_ok.mp hsum).1, ← (Word.add_eq_ok.mp hpayload).1]
        have hbehind : ∀ s, next = some s → s.offset + headerSize ≤ a.top := by
          rintro s rfl
          rw [← h.left.top_eq]
          exact (read_eq_ok (successorSegment_eq_some hsucc).2).1
        refine (level_writeHeader h (by omega) _).bind fun _ c c' hc => ?_
        refine (level_linkBack hc hbehind split).bind fun _ d d' hd => ?_
        exact (level_writeHeader hd hhead _).bind fun _ _ _ h' => .returned h'
      · simp only [if_neg hsplit]
        exact (level_writeHeader h hhead _).bind fun _ _ _ h' => .returned h'

/-- Checking the payload of a segment that ends at the top or below looks and clears there,
and leaves its header. -/
theorem level_checkClear (h : Alongside a b a' b') {k : Header} (hread : a'.read off = .ok k)
    (hstop : off + headerSize + k.size ≤ a.top) :
    Twins (fun _ s t => Alongside a b s t ∧ s.read off = .ok k) (Alongside a b)
      (checkClear off a') (checkClear off b') := by
  have hstop' : off + headerSize + k.size ≤ a'.top := by rw [h.left.top_eq]; exact hstop
  unfold checkClear
  refine .get ?_
  rw [h.same.read_eq, hread]
  refine .lift h fun k' hk => ?_
  cases hk
  dsimp only
  cases hused : k.used with
  | true =>
    rw [if_pos rfl, if_pos rfl]
    exact .failed h
  | false =>
    rw [if_neg Bool.false_ne_true, if_neg Bool.false_ne_true]
    by_cases hlong : Word.maxRequest < k.size
    · rw [if_pos hlong, if_pos hlong]
      exact .failed h
    rw [if_neg hlong, if_neg hlong, h.same.findNonzero_eq hstop']
    cases hfind : a'.memory.findNonzero (off + headerSize) k.size with
    | none => exact .returned ⟨h, hread⟩
    | some dirty =>
      obtain ⟨hlo, hhi, -, -⟩ := Memory.findNonzero_eq_some hfind
      dsimp only
      rw [h.same.addr_eq, h.same.below dirty (Nat.zero_le _) (by omega)]
      refine .lift h fun address _ => ?_
      cases k.freedAt with
      | some freedAt => exact .failed h
      | none =>
        refine .returned ⟨h.clear (by omega), Eq.trans ?_ hread⟩
        refine read_congr rfl rfl fun _ i _ hi => ?_
        rw [Memory.get_zero, if_neg (by omega)]

/-! ## What a search comes to -/

/-- The segments that a search for `size` bytes passes: those in front of the first that
fits. -/
def passed (a : Arena) (size : Nat) : List Segment :=
  a.walk.segments.takeWhile fun s => !decide (Fits size s)

/-- The search for `size` bytes comes to an offset: the walk stands there after a segment
that it passed for each of its steps. -/
def Visits (a : Arena) (size off : Nat) : Prop :=
  ∃ n, n ≤ (a.passed size).length ∧ a.standing n = some off

theorem getElem?_passed {size n : Nat} {s : Segment} (h : (a.passed size)[n]? = some s) :
    a.walk.segments[n]? = some s := by
  obtain ⟨hn, rfl⟩ := List.getElem?_eq_some_iff.mp h
  exact List.prefix_iff_getElem?.mp (List.takeWhile_prefix _) n hn

/-- Where a segment of the walk stands, and where the walk goes from there. -/
theorem standing_of_segment {n : Nat} {s : Segment} (h : a.walk.segments[n]? = some s) :
    a.standing n = some s.offset ∧ a.read s.offset = .ok s.header ∧
      a.standing (n + 1) = s.header.next ∧
      ∀ q, s.header.next = some q → q = s.stop ∧ q + headerSize ≤ a.top := by
  have hitem : a.item (0 + n) = some (.ok s) := ((walkFrom_items a 0 0 rfl).1 n s).mp h
  rw [Nat.zero_add] at hitem
  obtain ⟨off, hn⟩ := standing_of_item hitem
  cases hstep : a.step off with
  | error e => cases (item_of_error hn hstep).1.symm.trans hitem
  | ok r =>
    obtain ⟨t, next⟩ := r
    obtain ⟨hok, hthen⟩ := item_of_ok hn hstep
    cases hok.symm.trans hitem
    obtain ⟨rfl, hread, hsucc⟩ := step_eq_ok hstep
    cases next with
    | none =>
      have hnone := successor_eq_none hsucc
      exact ⟨hn, hread, hthen.trans hnone.symm, fun q hq => by rw [hnone] at hq; cases hq⟩
    | some p =>
      obtain ⟨hnext, hp, hroom⟩ := successor_eq_some hsucc
      refine ⟨hn, hread, hthen.trans hnext.symm, fun q hq => ?_⟩
      rw [hnext] at hq
      cases hq
      exact ⟨hp, hroom⟩

/-- The search comes to places on the granule only, exactly where every segment that it
passed and went on from has a size on the granule. -/
theorem visits_granular_iff {size : Nat} :
    (∀ off, a.Visits size off → off % granule = 0) ↔
      ∀ s ∈ a.passed size, s.header.next ≠ none → s.header.size % granule = 0 := by
  constructor
  · intro h s hs hnext
    obtain ⟨n, hn⟩ := List.mem_iff_getElem?.mp hs
    obtain ⟨hplace, -, hthen, hlink⟩ := standing_of_segment (getElem?_passed hn)
    obtain ⟨hlt, -⟩ := List.getElem?_eq_some_iff.mp hn
    obtain ⟨q, hq⟩ := Option.ne_none_iff_exists'.mp hnext
    have hstop : q = s.offset + headerSize + s.header.size := (hlink q hq).1
    have h1 := h s.offset ⟨n, Nat.le_of_lt hlt, hplace⟩
    have h2 := h q ⟨n + 1, hlt, hthen.trans hq⟩
    simp only [granule, headerSize] at *
    omega
  · rintro h off ⟨n, hn, hplace⟩
    induction n generalizing off with
    | zero =>
      cases hplace
      rfl
    | succ n ih =>
      -- the place before, and the segment that stands there
      have hpassed := List.getElem?_eq_getElem hn
      generalize (a.passed size)[n] = s at hpassed
      obtain ⟨hbefore, -, hthen, hlink⟩ := standing_of_segment (getElem?_passed hpassed)
      have hnext : s.header.next = some off := hthen.symm.trans hplace
      have hstop : off = s.offset + headerSize + s.header.size := (hlink off hnext).1
      have h1 := ih s.offset (Nat.le_of_lt hn) hbefore
      have h2 := h s (List.mem_of_getElem? hpassed) (by rw [hnext]; exact Option.some_ne_none off)
      simp only [granule, headerSize] at *
      omega

/-- A segment of the walk that fits is found if the search comes to it. -/
theorem firstFit_of_visits {size : Nat} {s : Segment} (hs : s ∈ a.walk.segments)
    (hvisits : a.Visits size s.offset) (hfits : Fits size s) :
    a.firstFit size = .ok (some s.offset) := by
  obtain ⟨k, hk⟩ := List.mem_iff_getElem?.mp hs
  obtain ⟨n, hn, hplace⟩ := hvisits
  have hat : k = n := by
    have hstands := (standing_of_segment hk).1
    rcases Nat.lt_trichotomy k n with hlt | heq | hlt
    · have := standing_rises hlt hstands hplace
      simp only [headerSize] at this
      omega
    · exact heq
    · have := standing_rises hlt hplace hstands
      simp only [headerSize] at this
      omega
  subst hat
  -- it is not among those that were passed, so that it is the first behind them
  have hpassed : ∀ t ∈ a.passed size, (!decide (Fits size t)) = true :=
    List.all_eq_true.mp List.all_takeWhile
  have hend : k = (a.passed size).length := by
    refine Nat.le_antisymm hn (Nat.not_lt.mp fun hlt => ?_)
    have hget := List.getElem?_eq_getElem hlt
    have hsame := Option.some.inj ((getElem?_passed hget).symm.trans hk)
    have hnot := hpassed s (hsame ▸ List.getElem_mem hlt)
    simp [hfits] at hnot
  obtain ⟨hlt, hget⟩ := List.getElem?_eq_some_iff.mp hk
  have hsplit : a.walk.segments = a.passed size ++ s :: a.walk.segments.drop (k + 1) := by
    rw [← hget, ← List.drop_eq_getElem_cons hlt, hend]
    exact ((List.prefix_iff_eq_append).mp (List.takeWhile_prefix _)).symm
  have hfind : a.walk.segments.find? (fun s => Fits size s) = some s :=
    List.find?_eq_some_iff_append.mpr
      ⟨decide_eq_true hfits, a.passed size, _, hsplit, hpassed⟩
  unfold firstFit
  rw [hfind]

/-- A segment that the search found: it fits and is free, and it ends below the top with
room for a header behind it, unless the walk ends with it. -/
structure Finds (a : Arena) (size : Nat) (s : Segment) : Prop where
  visits : a.Visits size s.offset
  read_eq : a.read s.offset = .ok s.header
  fits : Fits size s
  ends : s.stop + headerSize ≤ a.top ∨ s.header.next = none ∧ a.walk.segments.getLast? = some s

theorem exists_finds {size : Nat} (h : a.firstFit size = .ok (some off)) :
    ∃ s, s.offset = off ∧ a.Finds size s := by
  unfold firstFit at h
  cases hfind : a.walk.segments.find? (fun s => Fits size s) with
  | none =>
    rw [hfind] at h
    dsimp only at h
    split at h <;> cases h
  | some s =>
    rw [hfind] at h
    cases h
    obtain ⟨hfits, front, back, hsegments, hfront⟩ := List.find?_eq_some_iff_append.mp hfind
    have hpassed : a.passed size = front := by
      unfold passed
      rw [hsegments, List.takeWhile_append_of_pos hfront,
        List.takeWhile_cons_of_neg (by simpa using hfits), List.append_nil]
    have hat : a.walk.segments[front.length]? = some s := by
      rw [hsegments, List.getElem?_append_right (Nat.le_refl _), Nat.sub_self]
      rfl
    obtain ⟨hplace, hread, hthen, hlink⟩ := standing_of_segment hat
    refine ⟨s, rfl, ⟨front.length, by rw [hpassed], hplace⟩, hread, of_decide_eq_true hfits, ?_⟩
    cases hnext : s.header.next with
    | some q =>
      obtain ⟨hq, hroom⟩ := hlink q hnext
      rw [hq] at hroom
      exact .inl hroom
    | none =>
      refine .inr ⟨rfl, ?_⟩
      cases back with
      | nil => rw [hsegments, List.getLast?_concat]
      | cons t back =>
        have hbehind : a.walk.segments[front.length + 1]? = some t := by
          rw [hsegments, List.getElem?_append_right (Nat.le_succ _)]
          simp
        have hstands := (standing_of_segment hbehind).1
        rw [hthen, hnext] at hstands
        cases hstands

end Arena

namespace Machine

/-! ## Giving out what was found -/

/-- Two machines that differ in their arenas only, which were made alongside of `a` and
`b`. -/
inductive Alongside (a b : Arena) : Machine → Machine → Prop
  | intro {m : Machine} {c : Arena} : a.Alongside b m.arena c →
      Alongside a b m { m with arena := c }

/-- Two runs leave machines that differ in such arenas only. -/
abbrev Level {α : Type} (a b : Arena) :
    EStateM.Result Fault Machine α → EStateM.Result Fault Machine α → Prop :=
  Twins (fun _ => Alongside a b) (Alongside a b)

/-- An operation neither sees nor changes a byte at or above the top: with any other bytes
there it ends in the same way and does the same, and they stay as they were. -/
def KeepsBelow {α : Type} (m : Machine) (x : HeapM α) : Prop :=
  ∀ b, m.arena.SameBelow b → Level m.arena b (x m) (x { m with arena := b })

section Level

variable {α : Type} {a b : Arena} {m n : Machine}

theorem Alongside.arena (h : Alongside a b m n) : a.Alongside b m.arena n.arena := by
  cases h with
  | intro h => exact h

/-- The same lines are logged, and nothing else happens. -/
theorem twins_forM_log (h : Alongside a b m n) {γ : Type} (line : γ → LogLine) (xs : List γ) :
    Twins (fun _ s t => Alongside a b s t ∧ s.arena = m.arena) (Alongside a b)
      ((xs.forM fun x => log (line x)) m) ((xs.forM fun x => log (line x)) n) := by
  induction xs generalizing m n with
  | nil => exact .returned ⟨h, rfl⟩
  | cons x xs ih =>
    have hlog : Twins (fun _ s t => Alongside a b s t ∧ s.arena = m.arena) (Alongside a b)
        (log (line x) m) (log (line x) n) := by
      cases h with
      | intro h => exact .returned ⟨.intro h, rfl⟩
    refine hlog.bind fun _ s t hst => ?_
    rw [← hst.2]
    exact ih hst.1

/-- An operation on the arena leaves the rest of both machines alone. -/
theorem twins_onArena (h : Alongside a b m n) {Q : α → Arena → Arena → Prop} {x : ArenaM α}
    (hx : Twins Q (a.Alongside b) (x m.arena) (x n.arena))
    (hQ : ∀ r c d, Q r c d → a.Alongside b c d) :
    Twins (fun r s t => Alongside a b s t ∧ Q r s.arena t.arena) (Alongside a b)
      (onArena x m) (onArena x n) := by
  cases h with
  | @intro c h =>
    unfold onArena
    dsimp only at hx ⊢
    generalize x m.arena = r at hx
    generalize x c = r' at hx
    cases hx with
    | returned hr => exact .returned ⟨.intro (hQ _ _ _ hr), hr⟩
    | failed hr => exact .failed (.intro hr)

/-- A search sees nothing at or above the top. -/
theorem twins_search (h : Alongside a b m n) (hroom : headerSize ≤ m.arena.top)
    (htop : m.arena.top < 2 ^ 64) (size : Nat) :
    Twins (fun r s t => Alongside a b s t ∧ s.arena = m.arena ∧ m.arena.firstFit size = .ok r)
      (Alongside a b) (search size m) (search size n) := by
  have hsame := h.arena.same
  unfold search
  refine .get ?_
  rw [hsame.segments_eq hroom htop, hsame.addr_eq, hsame.firstFit_eq hroom htop]
  refine (twins_forM_log h _ _).bind fun _ s t hst => ?_
  cases hr : m.arena.firstFit size with
  | ok r => exact .returned ⟨hst.1, hst.2, rfl⟩
  | error e => exact .failed hst.1

/-- Taking a segment that ends at the top or below into use and stamping it. -/
theorem level_occupyRoom (h : Alongside a b m n) {off : Nat} {k : Header}
    (hread : m.arena.read off = .ok k) (hstop : off + headerSize + k.size ≤ a.top) (size : Nat)
    (site : CallSite) : Level a b (occupyRoom off size site m) (occupyRoom off size site n) := by
  unfold occupyRoom
  refine (twins_onArena h (Arena.level_occupy h.arena hread hstop size) fun _ _ _ hr => hr).bind
    fun _ s t hst => .get ?_
  obtain ⟨hst, -⟩ := hst
  cases hst with
  | intro hst =>
    refine (twins_onArena (.intro hst) (Arena.level_amend hst off _) fun _ _ _ hr => hr).bind
      fun _ _ _ hst' => .returned hst'.1

theorem twins_checkClear (h : Alongside a b m n) {off : Nat} {k : Header}
    (hread : m.arena.read off = .ok k) (hstop : off + headerSize + k.size ≤ a.top) :
    Twins (fun _ s t => Alongside a b s t ∧ s.arena.read off = .ok k) (Alongside a b)
      (checkClear off m) (checkClear off n) := by
  unfold checkClear
  refine (twins_onArena h (Arena.level_checkClear h.arena hread hstop) fun _ _ _ hr => hr.1).bind
    fun found s t hst => ?_
  obtain ⟨hst, -, hread'⟩ := hst
  cases found with
  | none => exact .returned ⟨hst, hread'⟩
  | some found =>
    cases hst with
    | intro hst => exact .returned ⟨.intro hst, hread'⟩

/-- A found segment that ends at the top or below is checked, split and given out there. -/
theorem keepsBelow_takeSegment (htop : m.arena.top < 2 ^ 64) {size : Nat} {s : Segment}
    (hfit : m.arena.firstFit size = .ok (some s.offset)) (hs : m.arena.Finds size s)
    (hstop : s.stop ≤ m.arena.top) (callback : Callback) (site : CallSite) :
    m.KeepsBelow (takeSegment callback size site) := by
  intro b hb
  have hread := hs.read_eq
  have hroom : headerSize ≤ m.arena.top :=
    Nat.le_trans (Nat.le_add_left _ _) (Arena.read_eq_ok hread).1
  rw [takeSegment_eq, findRoom, bind_assoc]
  refine (twins_search (.intro hb.alongside) hroom htop size).bind fun r u v hr => ?_
  obtain ⟨huv, harena, hr⟩ := hr
  cases hfit.symm.trans hr
  rw [← harena] at hread
  refine (twins_checkClear huv hread hstop).bind fun _ u' v' huv' => ?_
  exact level_occupyRoom huv'.1 huv'.2 hstop size site

end Level

/-! ## Any memory -/

/-- How far the search for `size` bytes reaches, and what is done with what it found. -/
structure SearchesWithin (m : Machine) (callback : Callback) (size : Nat) (site : CallSite) :
    Prop where
  /-- nothing is searched where no header fits -/
  small : m.arena.top < headerSize → m.arena.firstFit size = .error (.panic .headerPastTop)
  /-- a whole header fits at every place that the search comes to -/
  room : headerSize ≤ m.arena.top →
    ∀ off, m.arena.Visits size off → off + headerSize ≤ m.arena.top
  /-- the places lie on the granule as far as the sizes that lead there do -/
  granular : (∀ off, m.arena.Visits size off → off % granule = 0) ↔
    ∀ s ∈ m.arena.passed size, s.header.next ≠ none → s.header.size % granule = 0
  /-- a segment of the walk that fits is found if the search comes to it -/
  finds : ∀ s ∈ m.arena.walk.segments, m.arena.Visits size s.offset → Arena.Fits size s →
    m.arena.firstFit size = .ok (some s.offset)
  /-- what is found is inside the heap, or the last segment; where it ends at the top or
  below, giving it out stays below the top -/
  found : ∀ off, m.arena.firstFit size = .ok (some off) →
    ∃ s, s.offset = off ∧ m.arena.Finds size s ∧
      (s.stop ≤ m.arena.top → m.KeepsBelow (takeSegment callback size site))

/-- Whatever the headers say, a search stays inside the heap as far as it follows links. -/
theorem searches_within {m : Machine} (htop : m.arena.top < 2 ^ 64) (callback : Callback)
    (size : Nat) (site : CallSite) : m.SearchesWithin callback size site where
  small hsmall := by
    unfold Arena.firstFit
    rw [Arena.walk_of_small hsmall]
    rfl
  room hroom off hvisit := by
    obtain ⟨n, -, hn⟩ := hvisit
    exact (Arena.standing_room hroom hn).2
  granular := Arena.visits_granular_iff
  finds s hs hvisits hfits := Arena.firstFit_of_visits hs hvisits hfits
  found off hfit := by
    obtain ⟨s, rfl, hfinds⟩ := Arena.exists_finds hfit
    exact ⟨s, rfl, hfinds, fun hstop => keepsBelow_takeSegment htop hfit hfinds hstop callback site⟩

/-- A new heap whose first header says that a segment of 24 bytes is followed by another. -/
def skewed : Machine :=
  { World.smallNew.machine with
    arena := { World.smallNew.machine.arena with
      memory := (World.smallNew.machine.arena.memory.writeWord 8 8 24).writeWord 24 8 88 } }

/-- The search goes on from its first segment to a place that is not on the granule. -/
theorem step_skewed : skewed.arena.step 0 =
    .ok (⟨0, ⟨false, 24, none, some 88, none, none, none⟩⟩, some 88) := by
  decide +kernel

theorem visits_skewed : skewed.arena.Visits 100 88 :=
  ⟨1, by decide +kernel, (Arena.item_of_ok rfl step_skewed).2⟩

/-- In it a search can leave the granule, and a block of 16 bytes is given out safely. -/
theorem searches_within_skewed :
    skewed.arena.top < 2 ^ 64 ∧
      (¬ ∀ s ∈ skewed.arena.passed 100, s.header.next ≠ none → s.header.size % granule = 0) ∧
      skewed.KeepsBelow (takeSegment .none 16 ⟨1⟩) := by
  have htop : skewed.arena.top < 2 ^ 64 := by decide +kernel
  have hgranular := (searches_within htop .none 100 ⟨1⟩).granular
  obtain ⟨s, hoff, hfinds, hkeeps⟩ :=
    (searches_within htop .none 16 ⟨1⟩).found 0 (by decide +kernel)
  refine ⟨htop, fun h => absurd (hgranular.mpr h 88 visits_skewed) (by decide), hkeeps ?_⟩
  have hread := hfinds.read_eq
  rw [hoff, (Arena.step_eq_ok step_skewed).2.1] at hread
  have hstop : s.stop = 0 + headerSize + s.header.size := by rw [Segment.stop, hoff]
  rw [hstop, ← Except.ok.inj hread]
  decide +kernel

/-- A new heap whose only segment says that it is twice as large as the heap. -/
def overlong : Machine :=
  { World.smallNew.machine with
    arena := { World.smallNew.machine.arena with
      memory := World.smallNew.machine.arena.memory.writeWord 8 8 8192 } }

/-- The same with a byte behind the top that is not zero. -/
def littered : Arena := { overlong.arena with memory := overlong.arena.memory.set 4096 1 }

/-- A search need not stay on the granule, what it finds need not be inside the heap, and
giving that out can change what is not. -/
theorem not_searches_inside :
    (¬ ∀ m : Machine, m.arena.top % granule = 0 → m.arena.top < 2 ^ 64 →
      ∀ size off, m.arena.Visits size off → off % granule = 0) ∧
    (¬ ∀ m : Machine, m.arena.top % granule = 0 → m.arena.top < 2 ^ 64 →
      ∀ size off, m.arena.firstFit size = .ok (some off) →
        off + headerSize + Header.sizeAt m.arena.memory off ≤ m.arena.top) ∧
    ¬ ∀ m : Machine, m.arena.top % granule = 0 → m.arena.top < 2 ^ 64 →
      ∀ size off, m.arena.firstFit size = .ok (some off) →
        m.KeepsBelow (takeSegment .none size ⟨1⟩) := by
  have hgranule : overlong.arena.top % granule = 0 := by decide +kernel
  have htop : overlong.arena.top < 2 ^ 64 := by decide +kernel
  have hfit : overlong.arena.firstFit 16 = .ok (some 0) := by decide +kernel
  refine ⟨fun h => ?_, fun h => ?_, fun h => ?_⟩
  · exact absurd (h skewed (by decide +kernel) (by decide +kernel) 100 88 visits_skewed)
      (by decide)
  · exact absurd (h overlong hgranule htop 16 0 hfit) (by decide +kernel)
  · have hruns := h overlong hgranule htop 16 0 hfit littered
      (Arena.sameBelow_set (by decide +kernel) 1)
    have hrun : takeSegment .none 16 ⟨1⟩ { overlong with arena := littered } =
        .ok 0 (after (takeSegment .none 16 ⟨1⟩) { overlong with arena := littered }) :=
      run_of_returns (by decide +kernel)
    have hcleared : (after (takeSegment .none 16 ⟨1⟩)
        { overlong with arena := littered }).arena.memory.get 4096 = 0 := by decide +kernel
    rw [hrun] at hruns
    generalize after (takeSegment .none 16 ⟨1⟩) { overlong with arena := littered } = n at *
    generalize takeSegment .none 16 ⟨1⟩ overlong = r at hruns
    cases hruns with
    | returned hn =>
      have hkept := hn.arena.right.above 4096 (by decide +kernel)
      rw [hcleared] at hkept
      exact absurd hkept (by decide +kernel)

end Machine

end GuardedHeap
