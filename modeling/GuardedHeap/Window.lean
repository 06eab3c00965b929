/-
  Window.lean --- placement and size limits of a heap.

  WHAT THIS FILE IS FOR.  A heap owns one range of addresses.  Its first
  `floor` bytes are backed from the start and never given back; it never grows
  past `ceiling` bytes.  `Window` carries the rules such limits obey as proofs,
  so that nothing that holds a window checks them again, and `ofBytes` and
  `ofPages` are the two ways to get one from plain numbers.

  WHAT IS PROVED.  `ofBytes` accepts exactly the numbers that obey the rules.
-/
import GuardedHeap.Word

set_option autoImplicit false

namespace GuardedHeap

/-- Bytes of one page, the unit in which the heap grows. -/
abbrev pageSize : Nat := 4096

/-- The page an address lies in. -/
def pageOf (addr : Nat) : Nat := addr / pageSize

/-- How many pages cover the first `top` bytes of a window. -/
def pagesBelow (top : Nat) : Nat := (top + 4095) / pageSize

/-- Why limits describe no window. -/
inductive WindowError where
  | unalignedBase (base : Nat)
  | invalidMinimum (floor : Nat)
  | invalidMaximum (floor ceiling : Nat)
  | windowOverflow (base ceiling : Nat)
  deriving DecidableEq, Repr

namespace WindowError

/-- The name of the kind of error. -/
def name : WindowError → String
  | unalignedBase .. => "UnalignedBase"
  | invalidMinimum .. => "InvalidMinimum"
  | invalidMaximum .. => "InvalidMaximum"
  | windowOverflow .. => "WindowOverflow"

/-- The message of an error. -/
def message : WindowError → String
  | unalignedBase base => "heap base " ++ Hex.marked base ++ " is not page aligned"
  | invalidMinimum floor =>
    "reserved minimum " ++ Hex.marked floor ++ " is not a positive multiple of the page size"
  | invalidMaximum floor ceiling =>
    "reserved maximum " ++ Hex.marked ceiling ++
      " must be a page multiple not below the minimum " ++ Hex.marked floor
  | windowOverflow base ceiling =>
    "heap window " ++ Hex.marked base ++ " + " ++ Hex.marked ceiling ++
      " overflows the address space"

end WindowError

/-- The range of addresses a heap may use. -/
structure Window where
  base : Nat
  floor : Nat
  ceiling : Nat
  base_pos : 0 < base
  base_aligned : base % pageSize = 0
  floor_pos : 0 < floor
  floor_aligned : floor % pageSize = 0
  floor_le_ceiling : floor ≤ ceiling
  ceiling_aligned : ceiling % pageSize = 0
  fits : base + ceiling < 2 ^ (64 : Nat)

namespace Window

/-- The window at `base` with limits in bytes.  The rules are checked in the
order base, minimum, maximum, end of the address space. -/
def ofBytes (base floor ceiling : Nat) (base_pos : 0 < base) : Except WindowError Window :=
  if hb : base % pageSize = 0 then
    if hf : 0 < floor ∧ floor % pageSize = 0 then
      if hc : floor ≤ ceiling ∧ ceiling % pageSize = 0 then
        if he : base + ceiling < 2 ^ (64 : Nat) then
          .ok ⟨base, floor, ceiling, base_pos, hb, hf.1, hf.2, hc.1, hc.2, he⟩
        else .error (.windowOverflow base ceiling)
      else .error (.invalidMaximum floor ceiling)
    else .error (.invalidMinimum floor)
  else .error (.unalignedBase base)

/-- The window at `base` with limits in pages.  A limit that is no word in bytes
is refused before any other rule. -/
def ofPages (base floorPages ceilingPages : Nat) (base_pos : 0 < base) :
    Except WindowError Window :=
  if 2 ^ (64 : Nat) ≤ floorPages * pageSize then .error (.invalidMinimum Word.largest)
  else if 2 ^ (64 : Nat) ≤ ceilingPages * pageSize then .error (.windowOverflow base Word.largest)
  else ofBytes base (floorPages * pageSize) (ceilingPages * pageSize) base_pos

theorem ofBytes_eq_ok {base floor ceiling : Nat} {base_pos : 0 < base} {w : Window}
    (h : ofBytes base floor ceiling base_pos = .ok w) :
    w.base = base ∧ w.floor = floor ∧ w.ceiling = ceiling := by
  unfold ofBytes at h
  repeat (split at h)
  all_goals first | (cases h; done) | (cases h; exact ⟨rfl, rfl, rfl⟩)

/-- The rules are all that is asked. -/
theorem ofBytes_isOk_iff {base floor ceiling : Nat} {base_pos : 0 < base} :
    (∃ w, ofBytes base floor ceiling base_pos = .ok w) ↔
      base % pageSize = 0 ∧ 0 < floor ∧ floor % pageSize = 0 ∧ floor ≤ ceiling ∧
        ceiling % pageSize = 0 ∧ base + ceiling < 2 ^ (64 : Nat) := by
  constructor
  · rintro ⟨w, h⟩
    obtain ⟨rfl, rfl, rfl⟩ := ofBytes_eq_ok h
    exact ⟨w.base_aligned, w.floor_pos, w.floor_aligned, w.floor_le_ceiling,
      w.ceiling_aligned, w.fits⟩
  · rintro ⟨hb, hf, hfa, hle, hca, he⟩
    refine ⟨⟨base, floor, ceiling, base_pos, hb, hf, hfa, hle, hca, he⟩, ?_⟩
    unfold ofBytes
    rw [dif_pos hb, dif_pos ⟨hf, hfa⟩, dif_pos ⟨hle, hca⟩, dif_pos he]

theorem pageSize_le_floor (w : Window) : pageSize ≤ w.floor := by
  have := w.floor_pos
  have := w.floor_aligned
  simp only [pageSize] at *
  omega

theorem pagesBelow_mul_le {w : Window} {top : Nat} (h : top ≤ w.ceiling) :
    pagesBelow top * pageSize ≤ w.ceiling := by
  have := w.ceiling_aligned
  simp only [pagesBelow, pageSize] at *
  omega

end Window

end GuardedHeap
