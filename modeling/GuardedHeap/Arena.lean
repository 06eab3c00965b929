/-
  Arena.lean --- the segments that tile a window.

  WHAT THIS FILE IS FOR.  An `Arena` is a window with its contents, the current
  top and the offset recorded for the last segment.  Segments start at offset
  zero and follow each other without gaps; each header stores links to its two
  neighbors.  The memory may have been damaged by clients, so nothing stored
  in it is believed: a header is read only after its guard was looked at, and a
  link is followed only where the neighbor must be.

  This file holds what only looks: reading a header, following a link, walking
  all segments, the first-fit search, and finding the segment of a payload
  address.

  WHAT IS PROVED.  A followed link leads to the end of the segment and leaves
  room for a header below the top.  So a walk visits offsets that rise by at
  least a header, at most one per 64 bytes of the arena, every one with a whole
  header below the top.
-/
import GuardedHeap.Header
import GuardedHeap.Window

set_option autoImplicit false

namespace GuardedHeap

/-- A window with its contents. -/
structure Arena where
  window : Window
  /-- bytes of the window in use, from its base -/
  top : Nat
  /-- offset recorded for the last segment -/
  last : Nat
  memory : Memory

/-- A segment as it was read: where its header is and what it says. -/
structure Segment where
  offset : Nat
  header : Header
  deriving DecidableEq, Repr

/-- The end of the payload of a segment, as an exact number. -/
def Segment.stop (s : Segment) : Nat := s.offset + headerSize + s.header.size

/-- The segments a walk visited, and why it ended early if it did. -/
structure Walk where
  segments : List Segment
  failure : Option Fault

/-- Operations that look at an arena and change it.  A failed one leaves what
it had changed so far. -/
abbrev ArenaM := EStateM Fault Arena

instance instMonadLiftExcept {ε σ : Type} : MonadLift (Except ε) (EStateM ε σ) where
  monadLift
    | .ok a => pure a
    | .error e => throw e

namespace Arena

/-- The absolute address of an offset.  It wraps, so that an offset read from a
damaged header can still be shown. -/
def addr (a : Arena) (off : Nat) : Nat := (a.window.base + off) % 2 ^ (64 : Nat)

/-- The payload address of the segment at an offset. -/
def payload (a : Arena) (off : Nat) : Nat := a.addr (off + headerSize)

/-- How many pages back the arena. -/
def mappedPages (a : Arena) : Nat := pagesBelow a.top

/-- Whether a new top stays below the reserved maximum. -/
def admits (a : Arena) (newTop : Nat) : Bool := newTop ≤ a.window.ceiling

/-! ## Headers and links -/

/-- Reads the header at an offset after a look at its guard. -/
def read (a : Arena) (off : Nat) : Except Fault Header := do
  let stop ← Word.add off headerSize
  if a.top < stop then throw (.panic .headerPastTop)
  else if Header.guardAt a.memory off = guardWord then return Header.load a.memory off
  else
    throw (.detected (.corrupted (a.addr off) (Header.sizeAt a.memory off)
      (Header.guardAt a.memory off)))

/-- The error for a link of the segment at `off` that leads nowhere. -/
def brokenLink (a : Arena) (off link : Nat) : Fault :=
  .detected (.brokenLink (a.addr off) (a.addr link) (a.addr a.top))

/-- The error for a segment that breaks a rule of the list. -/
def inconsistent (a : Arena) (off : Nat) (detail : Inconsistency) : Fault :=
  .detected (.inconsistent (a.addr off) detail)

/-- Follows the next link: it has to lead to the end of the segment, and a
header has to fit there below the top. -/
def successor (a : Arena) (off : Nat) (h : Header) : Except Fault (Option Nat) :=
  match h.next with
  | none => .ok none
  | some next =>
    if next = off + headerSize + h.size ∧ next + headerSize ≤ a.top then .ok (some next)
    else .error (a.brokenLink off next)

/-- Follows the previous link: only the first segment has none, and any other
leads to a lower offset on the granule. -/
def predecessor (a : Arena) (off : Nat) (h : Header) : Except Fault (Option Nat) :=
  match h.prev with
  | none => if off = 0 then .ok none else .error (a.brokenLink off Word.largest)
  | some prev =>
    if prev < off ∧ prev % granule = 0 then .ok (some prev)
    else .error (a.brokenLink off prev)

/-- The segment at an offset, and where the next one is. -/
def step (a : Arena) (off : Nat) : Except Fault (Segment × Option Nat) := do
  let header ← a.read off
  let next ← a.successor off header
  return (⟨off, header⟩, next)

/-- The successor as a segment, read after its link was checked. -/
def successorSegment (a : Arena) (off : Nat) (h : Header) : Except Fault (Option Segment) := do
  match ← a.successor off h with
  | none => return none
  | some next => return some ⟨next, ← a.read next⟩

theorem successor_eq_some {a : Arena} {off next : Nat} {h : Header}
    (hs : a.successor off h = .ok (some next)) :
    h.next = some next ∧ next = off + headerSize + h.size ∧ next + headerSize ≤ a.top := by
  unfold successor at hs
  split at hs
  · cases hs
  · rename_i n hn
    split at hs
    · rename_i hc
      cases hs
      exact ⟨hn, hc.1, hc.2⟩
    · cases hs

theorem read_eq_ok {a : Arena} {off : Nat} {h : Header} (hr : a.read off = .ok h) :
    off + headerSize ≤ a.top ∧ Header.guardAt a.memory off = guardWord ∧
      h = Header.load a.memory off := by
  unfold read Word.add at hr
  by_cases h1 : off + headerSize < 2 ^ (64 : Nat)
  · rw [if_pos h1] at hr
    by_cases h2 : a.top < off + headerSize
    · simp only [bind, Except.bind, if_pos h2] at hr
      cases hr
    · by_cases h3 : Header.guardAt a.memory off = guardWord
      · simp only [bind, Except.bind, if_neg h2, if_pos h3] at hr
        cases hr
        exact ⟨by omega, h3, rfl⟩
      · simp only [bind, Except.bind, if_neg h2, if_neg h3] at hr
        cases hr
  · rw [if_neg h1] at hr
    cases hr

/-- Reading looks at the header only, and not at one past the top. -/
theorem read_congr {a b : Arena} {off : Nat} (hw : b.window = a.window) (ht : b.top = a.top)
    (hsame : off + headerSize ≤ a.top → ∀ i, off ≤ i → i < off + headerSize →
      b.memory.get i = a.memory.get i) : b.read off = a.read off := by
  unfold read addr
  rw [hw, ht]
  by_cases hroom : off + headerSize ≤ a.top
  · have hload : Header.load b.memory off = Header.load a.memory off :=
      Header.load_congr (hsame hroom)
    have hguard : Header.guardAt b.memory off = Header.guardAt a.memory off :=
      Header.guardAt_congr fun i h1 h2 => hsame hroom i h1 (by simp only [headerSize]; omega)
    have hsize : Header.sizeAt b.memory off = Header.sizeAt a.memory off :=
      Memory.word_congr fun i h1 h2 =>
        hsame hroom i (by omega) (by simp only [headerSize]; omega)
    rw [hload, hguard, hsize]
  · have hpast : a.top < off + headerSize := Nat.lt_of_not_le hroom
    unfold Word.add
    by_cases hword : off + headerSize < 2 ^ (64 : Nat)
    · rw [if_pos hword]
      simp only [bind, Except.bind, if_pos hpast]
    · rw [if_neg hword]
      rfl

/-- The segment behind a segment was read where its checked link leads. -/
theorem successorSegment_eq_some {a : Arena} {off : Nat} {h : Header} {s : Segment}
    (hs : a.successorSegment off h = .ok (some s)) :
    a.successor off h = .ok (some s.offset) ∧ a.read s.offset = .ok s.header := by
  unfold successorSegment at hs
  cases hnext : a.successor off h with
  | error e =>
    rw [hnext] at hs
    cases hs
  | ok next =>
    rw [hnext] at hs
    cases next with
    | none => cases hs
    | some q =>
      simp only [bind, Except.bind] at hs
      cases hr : a.read q with
      | error e =>
        rw [hr] at hs
        cases hs
      | ok k =>
        rw [hr] at hs
        cases hs
        exact ⟨rfl, hr⟩

theorem step_eq_ok {a : Arena} {off : Nat} {s : Segment} {next : Option Nat}
    (h : a.step off = .ok (s, next)) :
    s.offset = off ∧ a.read off = .ok s.header ∧ a.successor off s.header = .ok next := by
  unfold step at h
  cases hr : a.read off with
  | error e =>
    rw [hr] at h
    cases h
  | ok header =>
    rw [hr] at h
    cases hs : a.successor off header with
    | error e =>
      simp only [bind, Except.bind, hs] at h
      cases h
    | ok n =>
      simp only [bind, Except.bind, hs] at h
      cases h
      exact ⟨rfl, rfl, hs⟩

/-! ## The walk -/

/-- The segments from an offset on, each read and its next link checked before
it counts as visited. -/
def walkFrom (a : Arena) (off : Nat) : Walk :=
  match _h : a.step off with
  | .error f => ⟨[], some f⟩
  | .ok (s, none) => ⟨[s], none⟩
  | .ok (s, some next) =>
    let rest := a.walkFrom next
    ⟨s :: rest.segments, rest.failure⟩
termination_by a.top - off
decreasing_by
  obtain ⟨_, _, hs⟩ := step_eq_ok _h
  obtain ⟨_, h1, h2⟩ := successor_eq_some hs
  simp only [headerSize] at h1 h2
  omega

/-- All segments of the arena, in the order of their addresses. -/
def walk (a : Arena) : Walk := a.walkFrom 0

/-- Every visited segment has a whole header below the top, and offsets rise by
at least a header. -/
theorem walkFrom_offsets (a : Arena) (off : Nat) :
    (∀ s ∈ (a.walkFrom off).segments, off ≤ s.offset ∧ s.offset + headerSize ≤ a.top) ∧
      (a.walkFrom off).segments.Pairwise
        (fun s t => s.offset + headerSize ≤ t.offset) := by
  fun_induction walkFrom a off with
  | case1 off f h => exact ⟨fun _ hm => absurd hm List.not_mem_nil, List.Pairwise.nil⟩
  | case2 off s h =>
    obtain ⟨h0, hr, _⟩ := step_eq_ok h
    obtain ⟨h1, _, _⟩ := read_eq_ok hr
    refine ⟨fun t hm => ?_, List.pairwise_singleton _ _⟩
    rw [List.mem_singleton] at hm
    subst hm
    omega
  | case3 off s next h rest ih =>
    obtain ⟨h0, hr, hs⟩ := step_eq_ok h
    obtain ⟨h1, _, _⟩ := read_eq_ok hr
    obtain ⟨_, h2, h3⟩ := successor_eq_some hs
    simp only [headerSize] at *
    refine ⟨fun t hm => ?_, List.Pairwise.cons (fun t hm => ?_) ih.2⟩
    · rcases List.mem_cons.mp hm with rfl | hm
      · omega
      · have := ih.1 t hm
        omega
    · have := ih.1 t hm
      omega

/-- A walk visits at most one segment per 64 bytes. -/
theorem length_walkFrom (a : Arena) (off : Nat) :
    (a.walkFrom off).segments.length * headerSize + off ≤ max a.top off := by
  fun_induction walkFrom a off with
  | case1 off f h => simp only [List.length_nil, Nat.zero_mul]; omega
  | case2 off s h =>
    obtain ⟨_, hr, _⟩ := step_eq_ok h
    obtain ⟨h1, _, _⟩ := read_eq_ok hr
    simp only [headerSize, List.length_singleton] at *
    omega
  | case3 off s next h rest ih =>
    obtain ⟨_, _, hs⟩ := step_eq_ok h
    obtain ⟨_, h2, h3⟩ := successor_eq_some hs
    have hrest : rest.segments.length = (a.walkFrom next).segments.length := rfl
    simp only [headerSize, List.length_cons] at *
    omega

/-! ## The first-fit search -/

/-- A segment that can hold a block of `size` bytes. -/
def Fits (size : Nat) (s : Segment) : Prop := s.header.used = false ∧ size ≤ s.header.size

instance (size : Nat) : DecidablePred (Fits size) := fun s =>
  inferInstanceAs (Decidable (s.header.used = false ∧ size ≤ s.header.size))

/-- The lowest segment that can hold `size` bytes.  A walk that fails before one
is found fails the search; what comes after it does not matter. -/
def firstFit (a : Arena) (size : Nat) : Except Fault (Option Nat) :=
  match a.walk.segments.find? (fun s => Fits size s) with
  | some s => .ok (some s.offset)
  | none =>
    match a.walk.failure with
    | some f => .error f
    | none => .ok none

/-- The segments the search looks at: those that do not fit, and the first that
does. -/
def lookedAt (size : Nat) : List Segment → List Segment
  | [] => []
  | s :: rest => if Fits size s then [s] else s :: lookedAt size rest

/-! ## From a payload address to its segment -/

/-- The offset of the segment whose payload starts at an address.  The header
is not looked at. -/
def locate (a : Arena) (address : Nat) : Except Fault Nat := do
  let start := a.addr 0
  let stop := a.addr a.top
  let first ← Word.add start headerSize
  if first ≤ address ∧ address < stop then
    let off := address - first
    if off % granule = 0 then return off else throw (.detected (.misalignedAddress address))
  else throw (.detected (.addressOutOfRange address start stop))

/-- A header in front of the first payload fits into every window. -/
theorem locate_eq (a : Arena) (address : Nat) :
    a.locate address =
      if a.addr 0 + headerSize ≤ address ∧ address < a.addr a.top then
        if (address - a.addr 0 - headerSize) % granule = 0 then
          .ok (address - a.addr 0 - headerSize)
        else .error (.detected (.misalignedAddress address))
      else .error (.detected (.addressOutOfRange address (a.addr 0) (a.addr a.top))) := by
  have hfirst : Word.add (a.addr 0) headerSize = .ok (a.addr 0 + headerSize) := by
    have hpage := a.window.pageSize_le_floor
    have hfloor := a.window.floor_le_ceiling
    have hfits := a.window.fits
    refine Word.add_eq_ok.mpr ⟨rfl, ?_⟩
    rw [addr, Nat.add_zero, Nat.mod_eq_of_lt (by omega)]
    simp only [headerSize, pageSize] at *
    omega
  rw [locate, hfirst]
  show (if a.addr 0 + headerSize ≤ address ∧ address < a.addr a.top then
    if (address - (a.addr 0 + headerSize)) % granule = 0 then _ else _ else _) = _
  rw [Nat.sub_add_eq]
  rfl

end Arena

end GuardedHeap
