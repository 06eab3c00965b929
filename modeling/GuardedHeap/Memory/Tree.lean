/-
  Memory/Tree.lean --- a block of bytes as a tree of halves.

  WHAT THIS FILE IS FOR.  Most of a heap window holds long runs of one byte:
  cleared memory, fresh pages.  A `ByteTree` is a block of `2 ^ h` bytes that is
  either one byte throughout or two halves of half the length, so that clearing
  a page, or all of memory, touches a few nodes, and a search for a byte other
  than zero passes over cleared blocks at once.  The length of a block is not
  stored: functions that need it take it as an argument and halve it on the way
  down.

  WHAT IS PROVED.  What `fill` and `overlay` leave at every index, and that the
  search finds the lowest byte other than zero in its range.
-/
import GuardedHeap.Word

set_option autoImplicit false

namespace GuardedHeap

/-- A block of bytes whose length is a power of two. -/
inductive ByteTree where
  /-- every byte of the block is `b` -/
  | uniform (b : UInt8)
  | halves (low high : ByteTree)
  deriving DecidableEq, Repr

namespace ByteTree

/-- The byte at index `i` of a block of `n` bytes. -/
def get : ByteTree → Nat → Nat → UInt8
  | uniform b, _, _ => b
  | halves low high, n, i =>
    let half := n / 2
    if i < half then low.get half i else high.get half (i - half)

/-- The lower half of a block. -/
def low : ByteTree → ByteTree
  | uniform b => uniform b
  | halves l _ => l

/-- The upper half of a block. -/
def high : ByteTree → ByteTree
  | uniform b => uniform b
  | halves _ r => r

/-- The block made of two halves; one byte throughout if both are. -/
def join : ByteTree → ByteTree → ByteTree
  | uniform a, uniform b => if a = b then uniform a else halves (uniform a) (uniform b)
  | l, r => halves l r

/-- Sets the bytes in `[start, stop)` of a block of `n = 2 ^ h` bytes. -/
def fill (b : UInt8) : Nat → Nat → ByteTree → Nat → Nat → ByteTree
  | 0, _, t, start, stop => if start = 0 ∧ 0 < stop then uniform b else t
  | h + 1, n, t, start, stop =>
    if stop ≤ start then t
    else if start = 0 ∧ n ≤ stop then uniform b
    else
      let half := n / 2
      join (fill b h half t.low start (min stop half))
        (fill b h half t.high (start - half) (stop - half))

/-- Replaces the bytes in `[start, stop)` of a block of `n = 2 ^ h` bytes that
starts at index `base` of a larger one by the values of `f` at their indices
there. -/
def overlay (f : Nat → UInt8) : Nat → Nat → ByteTree → Nat → Nat → Nat → ByteTree
  | 0, _, t, base, start, stop => if start = 0 ∧ 0 < stop then uniform (f base) else t
  | h + 1, n, t, base, start, stop =>
    if stop ≤ start then t
    else
      let half := n / 2
      join (overlay f h half t.low base start (min stop half))
        (overlay f h half t.high (base + half) (start - half) (stop - half))

/-- The first index in `[start, stop)` of a block of `n` bytes whose byte is not
zero; the range lies in the block. -/
def findNonzero : ByteTree → Nat → Nat → Nat → Option Nat
  | uniform b, _, start, stop => if start < stop ∧ b ≠ 0 then some start else none
  | halves low high, n, start, stop =>
    if stop ≤ start then none
    else
      let half := n / 2
      match low.findNonzero half start (min stop half) with
      | some i => some i
      | none => (high.findNonzero half (start - half) (stop - half)).map (· + half)

/-! ## Reading by halves -/

theorem get_eq_halves (t : ByteTree) (n i : Nat) :
    t.get n i =
      if i < n / 2 then t.low.get (n / 2) i else t.high.get (n / 2) (i - n / 2) := by
  cases t with
  | uniform b => simp only [get, low, high, ite_self]
  | halves l r => rfl

theorem get_join (l r : ByteTree) (n i : Nat) :
    (join l r).get n i =
      if i < n / 2 then l.get (n / 2) i else r.get (n / 2) (i - n / 2) := by
  unfold join
  split
  · rename_i a b
    split
    · rename_i h
      subst h
      simp only [get, ite_self]
    · rfl
  · rfl

/-! ## Writing -/

theorem half_pow (h : Nat) : 2 ^ (h + 1) / 2 = 2 ^ h := by
  rw [Nat.pow_succ, Nat.mul_div_cancel _ (by decide)]

/-- The bytes in `[start, stop)` of a block of `2 ^ h` bytes are replaced by the values
of `f`, the others are as they were. -/
def Replaced (f : Nat → UInt8) (h start stop : Nat) (old new : ByteTree) : Prop :=
  ∀ i, i < 2 ^ h →
    new.get (2 ^ h) i = if start ≤ i ∧ i < stop then f i else old.get (2 ^ h) i

theorem replaced_byte (f : Nat → UInt8) (t : ByteTree) (start stop : Nat) :
    Replaced f 0 start stop t (if start = 0 ∧ 0 < stop then uniform (f 0) else t) := by
  intro i hi
  have h0 : i = 0 := by simpa using hi
  subst h0
  by_cases hc : start = 0 ∧ 0 < stop
  · rw [if_pos hc, if_pos (by omega)]
    rfl
  · rw [if_neg hc, if_neg (by omega)]

theorem replaced_of_empty (f : Nat → UInt8) (h : Nat) (t : ByteTree) {start stop : Nat}
    (hle : stop ≤ start) : Replaced f h start stop t t := by
  intro i hi
  rw [if_neg (by omega)]

/-- A range is replaced in a block once its parts are in the two halves. -/
theorem replaced_join {f : Nat → UInt8} {h start stop : Nat} {t l r : ByteTree}
    (hl : Replaced f h start (min stop (2 ^ h)) t.low l)
    (hr : Replaced (fun i => f (2 ^ h + i)) h (start - 2 ^ h) (stop - 2 ^ h) t.high r) :
    Replaced f (h + 1) start stop t (join l r) := by
  intro i hi
  have hp : 2 ^ (h + 1) = 2 * 2 ^ h := by rw [Nat.pow_succ, Nat.mul_comm]
  rw [get_join, get_eq_halves t, half_pow]
  by_cases hlow : i < 2 ^ h
  · rw [if_pos hlow, if_pos hlow, hl i hlow]
    by_cases hc : start ≤ i ∧ i < stop
    · rw [if_pos hc, if_pos (by omega)]
    · rw [if_neg hc, if_neg (by omega)]
  · rw [if_neg hlow, if_neg hlow, hr (i - 2 ^ h) (by omega)]
    by_cases hc : start ≤ i ∧ i < stop
    · rw [if_pos hc, if_pos (by omega)]
      exact congrArg f (Nat.add_sub_cancel' (Nat.le_of_not_lt hlow))
    · rw [if_neg hc, if_neg (by omega)]

theorem replaced_fill (b : UInt8) (h : Nat) (t : ByteTree) (start stop : Nat) :
    Replaced (fun _ => b) h start stop t (fill b h (2 ^ h) t start stop) := by
  induction h generalizing t start stop with
  | zero => exact replaced_byte _ t start stop
  | succ h ih =>
    rw [fill]
    split
    case isTrue hempty => exact replaced_of_empty _ _ t hempty
    case isFalse =>
      split
      case isTrue hwhole =>
        intro i hi
        rw [if_pos (by omega)]
        rfl
      case isFalse =>
        simp only [half_pow]
        exact replaced_join (ih _ _ _) (ih _ _ _)

theorem replaced_overlay (f : Nat → UInt8) (h : Nat) (t : ByteTree) (base start stop : Nat) :
    Replaced (fun i => f (base + i)) h start stop t (overlay f h (2 ^ h) t base start stop) := by
  induction h generalizing t base start stop with
  | zero => exact replaced_byte _ t start stop
  | succ h ih =>
    rw [overlay]
    split
    case isTrue hempty => exact replaced_of_empty _ _ t hempty
    case isFalse =>
      simp only [half_pow]
      refine replaced_join (ih _ _ _ _) ?_
      have hhigh := ih t.high (base + 2 ^ h) (start - 2 ^ h) (stop - 2 ^ h)
      simpa only [Nat.add_assoc] using hhigh

/-! ## Searching -/

/-- Nothing is found exactly where every byte is zero. -/
theorem findNonzero_eq_none_iff {t : ByteTree} {n start stop : Nat} :
    t.findNonzero n start stop = none ↔ ∀ i, start ≤ i → i < stop → t.get n i = 0 := by
  induction t generalizing n start stop with
  | uniform b =>
    rw [findNonzero]
    constructor
    · intro h i h1 h2
      split at h
      · cases h
      · rename_i hc
        rw [get]
        exact Decidable.byContradiction fun hb => hc ⟨by omega, hb⟩
    · intro h
      refine if_neg fun hc => hc.2 ?_
      exact h start (Nat.le_refl _) hc.1
  | halves l r ihl ihr =>
    rw [findNonzero]
    split
    · simp only [true_iff]
      intro i h1 h2
      omega
    · simp only
      constructor
      · intro h i h1 h2
        split at h
        · cases h
        · rename_i hl
          rw [get]
          by_cases hi : i < n / 2
          · rw [if_pos hi]
            exact ihl.mp hl i h1 (by omega)
          · rw [if_neg hi]
            exact ihr.mp (Option.map_eq_none_iff.mp h) _ (by omega) (by omega)
      · intro h
        have hl : l.findNonzero (n / 2) start (min stop (n / 2)) = none := by
          refine ihl.mpr fun i h1 h2 => ?_
          have := h i h1 (by omega)
          rw [get, if_pos (by omega)] at this
          exact this
        rw [hl]
        refine Option.map_eq_none_iff.mpr (ihr.mpr fun i h1 h2 => ?_)
        have := h (i + n / 2) (by omega) (by omega)
        rw [get, if_neg (by omega), Nat.add_sub_cancel] at this
        exact this

/-- What is found is the lowest index in the range whose byte is not zero. -/
theorem findNonzero_eq_some {t : ByteTree} {n start stop i : Nat}
    (hf : t.findNonzero n start stop = some i) :
    start ≤ i ∧ i < stop ∧ t.get n i ≠ 0 ∧ ∀ j, start ≤ j → j < i → t.get n j = 0 := by
  induction t generalizing n start stop i with
  | uniform b =>
    rw [findNonzero] at hf
    split at hf
    · rename_i hc
      cases hf
      exact ⟨Nat.le_refl _, hc.1, hc.2, fun j _ _ => by omega⟩
    · cases hf
  | halves l r ihl ihr =>
    rw [findNonzero] at hf
    split at hf
    · cases hf
    · simp only at hf
      split at hf
      · rename_i k hk
        cases hf
        obtain ⟨h1, h2, h3, h4⟩ := ihl hk
        refine ⟨h1, by omega, ?_, fun j hj1 hj2 => ?_⟩
        · rw [get, if_pos (by omega)]
          exact h3
        · rw [get, if_pos (by omega)]
          exact h4 j hj1 hj2
      · rename_i hn
        obtain ⟨k, hk, rfl⟩ := Option.map_eq_some_iff.mp hf
        obtain ⟨h1, h2, h3, h4⟩ := ihr hk
        refine ⟨by omega, by omega, ?_, fun j hj1 hj2 => ?_⟩
        · rw [get, if_neg (by omega), Nat.add_sub_cancel]
          exact h3
        · rw [get]
          by_cases hj : j < n / 2
          · rw [if_pos hj]
            exact findNonzero_eq_none_iff.mp hn j hj1 (by omega)
          · rw [if_neg hj]
            exact h4 _ (by omega) (by omega)

end ByteTree

end GuardedHeap
