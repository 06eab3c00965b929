/-
  Word.lean --- arithmetic on 64-bit words.

  WHAT THIS FILE IS FOR.  Addresses, offsets and sizes are natural numbers
  below `2 ^ 64`.  The heap adds, multiplies and rounds them with checks: a
  result that leaves the range is a broken precondition, not a wrapped number.
  Requests that only have to be refused are added with saturation.

  WHAT IS PROVED.  A checked operation that returns, returns the exact
  result, and it fails only when that result is no word.
-/
import GuardedHeap.Fault

set_option autoImplicit false

namespace GuardedHeap

-- in this namespace a power is the same term with and without Mathlib's monoids in scope
scoped instance (priority := high) instPowByNat {α : Type} [NatPow α] : Pow α Nat := instPowNat

end GuardedHeap

namespace GuardedHeap.Word

/-- The largest word. -/
def largest : Nat := 2 ^ (64 : Nat) - 1

/-- The largest request the heap accepts, half of the address space.  No object may be
longer either. -/
def maxRequest : Nat := 2 ^ (63 : Nat) - 1

/-! ## Checked and saturating operations -/

/-- The exact sum, unless it leaves the range. -/
def add (a b : Nat) : Except Fault Nat :=
  if a + b < 2 ^ (64 : Nat) then .ok (a + b) else .error (.panic .addOverflow)

/-- The exact difference, unless it is negative. -/
def sub (a b : Nat) : Except Fault Nat :=
  if b ≤ a then .ok (a - b) else .error (.panic .subtractOverflow)

/-- The exact product, unless it leaves the range. -/
def mul (a b : Nat) : Except Fault Nat :=
  if a * b < 2 ^ (64 : Nat) then .ok (a * b) else .error (.panic .multiplyOverflow)

/-- The sum, or the largest word where it leaves the range. -/
def saturatingAdd (a b : Nat) : Nat := min (a + b) largest

/-- What a checked operation returns is exact, and in the range it is checked for. -/
theorem checked_eq_ok {p : Prop} [Decidable p] {value c : Nat} {e : Fault} :
    (if p then .ok value else .error e : Except Fault Nat) = .ok c ↔ value = c ∧ p := by
  constructor
  · intro h
    split at h
    · cases h
      exact ⟨rfl, by assumption⟩
    · cases h
  · rintro ⟨rfl, h⟩
    rw [if_pos h]

theorem add_eq_ok {a b c : Nat} : add a b = .ok c ↔ a + b = c ∧ a + b < 2 ^ (64 : Nat) :=
  checked_eq_ok

theorem sub_eq_ok {a b c : Nat} : sub a b = .ok c ↔ a - b = c ∧ b ≤ a :=
  checked_eq_ok

theorem mul_eq_ok {a b c : Nat} : mul a b = .ok c ↔ a * b = c ∧ a * b < 2 ^ (64 : Nat) :=
  checked_eq_ok

/-! ## Rounding -/

/-- The least multiple of sixteen that is not below `size`. -/
def roundUp (size : Nat) : Nat := (size + 15) / 16 * 16

theorem roundUp_mod (size : Nat) : roundUp size % 16 = 0 := by
  unfold roundUp
  omega

theorem le_roundUp (size : Nat) : size ≤ roundUp size := by
  unfold roundUp
  omega

theorem roundUp_lt (size : Nat) : roundUp size < size + 16 := by
  unfold roundUp
  omega

theorem roundUp_eq_self {size : Nat} (h : size % 16 = 0) : roundUp size = size := by
  unfold roundUp
  omega

/-- Rounding up by way of a sum, unless that leaves the range. -/
def rounded (size : Nat) : Except Fault Nat := do
  let sum ← add size 15
  return sum / 16 * 16

/-- An accepted request is rounded without leaving the range. -/
theorem rounded_eq {size : Nat} (h : size ≤ maxRequest) : rounded size = .ok (roundUp size) := by
  have hadd : add size 15 = .ok (size + 15) := by
    rw [maxRequest] at h
    exact add_eq_ok.mpr ⟨rfl, by omega⟩
  rw [rounded, hadd]
  rfl

/-- The least multiple of `step` that is not below `a`, unless it leaves the
range. -/
def alignUp (a step : Nat) : Except Fault Nat :=
  if a % step = 0 then .ok a else add a (step - a % step)

/-- Rounding up to a step goes less than a step up. -/
theorem exists_alignUp {a step : Nat} (hs : 0 < step) (h : a + step ≤ 2 ^ (64 : Nat)) :
    ∃ c, alignUp a step = .ok c ∧ c % step = 0 ∧ a ≤ c ∧ c < a + step := by
  unfold alignUp
  by_cases hz : a % step = 0
  · exact ⟨a, if_pos hz, hz, Nat.le_refl a, by omega⟩
  · have hlt := Nat.mod_lt a hs
    have hsum : a + (step - a % step) = step * (a / step + 1) := by
      have := Nat.div_add_mod a step
      rw [Nat.mul_add, Nat.mul_one]
      omega
    refine ⟨a + (step - a % step), ?_, ?_, by omega, by omega⟩
    · rw [if_neg hz]
      exact add_eq_ok.mpr ⟨rfl, by omega⟩
    · rw [hsum]
      exact Nat.mul_mod_right _ _

end GuardedHeap.Word
