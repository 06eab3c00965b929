/-
  Memory.lean --- the bytes of a window.

  WHAT THIS FILE IS FOR.  A `Memory` holds one byte at every offset from the
  base of a window.  It is total: bytes that were never written read as zero,
  and a write reaches as far as it has to.  Whether an offset is backed by a
  page is the platform's business and not asked here.

  Words are little endian and of any width; `copy` reads everything before it
  writes.

  WHAT IS PROVED.  One law per operation, through `get`: what `set`, `fill`,
  `zero`, `copy` and `writeWord` leave at every offset, that a word reads back,
  and what a search for a byte other than zero returns.  Nothing else is needed
  to reason about memory.
-/
import GuardedHeap.Memory.Tree

set_option autoImplicit false

namespace GuardedHeap

/-- The contents of a window: a block of `size = 2 ^ height` bytes, and zeros
behind it. -/
structure Memory where
  height : Nat
  size : Nat
  tree : ByteTree
  size_eq : size = 2 ^ height
  deriving DecidableEq, Repr

namespace Memory

/-- A memory of zeros. -/
def empty : Memory := ⟨0, 1, .uniform 0, rfl⟩

/-- The byte at an offset. -/
def get (m : Memory) (off : Nat) : UInt8 := if off < m.size then m.tree.get m.size off else 0

/-- The same bytes in a block of twice the length. -/
def double (m : Memory) : Memory :=
  ⟨m.height + 1, m.size * 2, m.tree.join (.uniform 0), by rw [m.size_eq, Nat.pow_succ]⟩

/-- The same bytes in a block doubled `count` times. -/
def doubled (m : Memory) : Nat → Memory
  | 0 => m
  | count + 1 => m.double.doubled count

/-- The same bytes in a block of more than `stop` bytes. -/
def reaching (m : Memory) (stop : Nat) : Memory :=
  if stop < m.size then m else m.doubled (stop.log2 + 1 - m.height)

/-- Sets `len` bytes from an offset on. -/
def fill (m : Memory) (off : Nat) (b : UInt8) (len : Nat) : Memory :=
  let r := m.reaching (off + len)
  { r with tree := r.tree.fill b r.height r.size off (off + len) }

/-- Clears `len` bytes from an offset on. -/
def zero (m : Memory) (off len : Nat) : Memory := m.fill off 0 len

/-- Replaces the byte at an offset. -/
def set (m : Memory) (off : Nat) (b : UInt8) : Memory := m.fill off b 1

/-- Replaces `len` bytes from an offset on by the values of `f` at their
offsets. -/
def overlay (m : Memory) (off len : Nat) (f : Nat → UInt8) : Memory :=
  let r := m.reaching (off + len)
  { r with tree := r.tree.overlay f r.height r.size 0 off (off + len) }

/-- Copies `len` bytes from `src` to `dst`. -/
def copy (m : Memory) (src dst len : Nat) : Memory :=
  m.overlay dst len fun i => m.get (src + (i - dst))

/-- Writes bytes one after the other. -/
def writeBytes (m : Memory) (off : Nat) : List UInt8 → Memory
  | [] => m
  | b :: bs => writeBytes (m.set off b) (off + 1) bs

/-- The little endian number in `width` bytes. -/
def word (m : Memory) (off : Nat) : Nat → Nat
  | 0 => 0
  | width + 1 => (m.get off).toNat + 256 * m.word (off + 1) width

/-- The byte at index `i` of a number, the lowest first. -/
def byteOf (value i : Nat) : UInt8 := UInt8.ofNat (value / 256 ^ i % 256)

/-- Stores the low `width` bytes of a number, little endian. -/
def writeWord (m : Memory) (off width value : Nat) : Memory :=
  m.overlay off width fun i => byteOf value (i - off)

/-- The first offset in `[off, off + len)` whose byte is not zero. -/
def findNonzero (m : Memory) (off len : Nat) : Option Nat :=
  m.tree.findNonzero m.size off (min (off + len) m.size)

/-! ## The same bytes in a longer block -/

@[simp] theorem get_double (m : Memory) (i : Nat) : m.double.get i = m.get i := by
  unfold double get
  simp only
  rw [ByteTree.get_join, Nat.mul_div_cancel _ (by decide)]
  by_cases h : i < m.size
  · rw [if_pos (by omega), if_pos h, if_pos h]
  · rw [if_neg h, if_neg h]
    split <;> rfl

@[simp] theorem get_doubled (m : Memory) (count i : Nat) : (m.doubled count).get i = m.get i := by
  induction count generalizing m with
  | zero => rfl
  | succ count ih => rw [doubled, ih, get_double]

theorem height_doubled (m : Memory) (count : Nat) :
    (m.doubled count).height = m.height + count := by
  induction count generalizing m with
  | zero => rfl
  | succ count ih =>
    rw [doubled, ih, double]
    simp only
    omega

@[simp] theorem get_reaching (m : Memory) (stop i : Nat) : (m.reaching stop).get i = m.get i := by
  unfold reaching
  split
  · rfl
  · exact get_doubled m _ i

theorem lt_size_reaching (m : Memory) (stop : Nat) : stop < (m.reaching stop).size := by
  unfold reaching
  split
  · assumption
  · rw [size_eq, height_doubled]
    calc stop < 2 ^ (stop.log2 + 1) := Nat.lt_log2_self
      _ ≤ 2 ^ (m.height + (stop.log2 + 1 - m.height)) :=
        Nat.pow_le_pow_right (by decide) (by omega)

/-! ## Laws of writing -/

/-- What a memory reads once a range of its tree is replaced. -/
theorem get_of_replaced {m : Memory} {off len : Nat} {f : Nat → UInt8} {t : ByteTree}
    (h : ByteTree.Replaced f (m.reaching (off + len)).height off (off + len)
      (m.reaching (off + len)).tree t) (i : Nat) :
    Memory.get { m.reaching (off + len) with tree := t } i =
      if off ≤ i ∧ i < off + len then f i else m.get i := by
  have hr := lt_size_reaching m (off + len)
  rw [← get_reaching m (off + len) i]
  generalize m.reaching (off + len) = r at *
  unfold get
  simp only
  by_cases hi : i < r.size
  · rw [if_pos hi, if_pos hi]
    have hs := r.size_eq
    rw [hs] at hi ⊢
    exact h i hi
  · rw [if_neg hi, if_neg hi, if_neg (by omega)]

@[simp] theorem get_fill (m : Memory) (off : Nat) (b : UInt8) (len i : Nat) :
    (m.fill off b len).get i = if off ≤ i ∧ i < off + len then b else m.get i := by
  refine get_of_replaced (f := fun _ => b) ?_ i
  rw [(m.reaching (off + len)).size_eq]
  exact ByteTree.replaced_fill b _ _ off (off + len)

@[simp] theorem get_set (m : Memory) (off : Nat) (b : UInt8) (i : Nat) :
    (m.set off b).get i = if i = off then b else m.get i := by
  rw [set, get_fill]
  by_cases h : i = off
  · rw [if_pos h, if_pos (by omega)]
  · rw [if_neg h, if_neg (by omega)]

@[simp] theorem get_zero (m : Memory) (off len i : Nat) :
    (m.zero off len).get i = if off ≤ i ∧ i < off + len then 0 else m.get i :=
  get_fill m off 0 len i

theorem get_overlay (m : Memory) (off len : Nat) (f : Nat → UInt8) (i : Nat) :
    (m.overlay off len f).get i = if off ≤ i ∧ i < off + len then f i else m.get i := by
  refine get_of_replaced ?_ i
  rw [(m.reaching (off + len)).size_eq]
  have hover := ByteTree.replaced_overlay f (m.reaching (off + len)).height
    (m.reaching (off + len)).tree 0 off (off + len)
  simpa only [Nat.zero_add] using hover

@[simp] theorem get_copy (m : Memory) (src dst len i : Nat) :
    (m.copy src dst len).get i =
      if dst ≤ i ∧ i < dst + len then m.get (src + (i - dst)) else m.get i :=
  get_overlay m dst len _ i

theorem get_writeWord (m : Memory) (off width value i : Nat) :
    (m.writeWord off width value).get i =
      if off ≤ i ∧ i < off + width then byteOf value (i - off) else m.get i :=
  get_overlay m off width _ i

theorem get_writeWord_of_outside (m : Memory) {off width value i : Nat}
    (h : i < off ∨ off + width ≤ i) : (m.writeWord off width value).get i = m.get i := by
  rw [get_writeWord, if_neg (by omega)]

theorem get_writeWord_congr {m n : Memory} {i : Nat} (off width value : Nat)
    (h : m.get i = n.get i) :
    (m.writeWord off width value).get i = (n.writeWord off width value).get i := by
  rw [get_writeWord, get_writeWord, h]

/-! ## Laws of words -/

theorem word_lt (m : Memory) (off width : Nat) : m.word off width < 256 ^ width := by
  induction width generalizing off with
  | zero => simp [word]
  | succ width ih =>
    have h := ih (off + 1)
    have hb : (m.get off).toNat < 256 := (m.get off).toNat_lt
    rw [word, Nat.pow_succ]
    omega

theorem word_congr {m n : Memory} {off width : Nat}
    (h : ∀ i, off ≤ i → i < off + width → m.get i = n.get i) :
    m.word off width = n.word off width := by
  induction width generalizing off with
  | zero => rfl
  | succ width ih =>
    rw [word, word, h off (by omega) (by omega),
      ih (fun i h1 h2 => h i (by omega) (by omega))]

theorem byteOf_zero (value : Nat) : byteOf value 0 = UInt8.ofNat (value % 256) := by
  rw [byteOf, Nat.pow_zero, Nat.div_one]

theorem byteOf_succ (value i : Nat) : byteOf value (i + 1) = byteOf (value / 256) i := by
  rw [byteOf, byteOf, Nat.pow_succ, Nat.mul_comm, Nat.div_div_eq_div_mul]

/-- Bytes that are those of a number make up that number, up to their width. -/
theorem word_eq_mod {m : Memory} {off width value : Nat}
    (h : ∀ k, k < width → m.get (off + k) = byteOf value k) :
    m.word off width = value % 256 ^ width := by
  induction width generalizing off value with
  | zero => simp [word, Nat.mod_one]
  | succ width ih =>
    have hpow : 256 ^ (width + 1) = 256 * 256 ^ width := by rw [Nat.pow_succ, Nat.mul_comm]
    have h0 := h 0 (by omega)
    rw [Nat.add_zero, byteOf_zero] at h0
    have hrest : m.word (off + 1) width = value / 256 % 256 ^ width := by
      refine ih fun k hk => ?_
      rw [← byteOf_succ, ← h (k + 1) (by omega)]
      congr 1
      omega
    rw [word, h0, hrest, UInt8.toNat_ofNat', hpow, Nat.mod_mul]
    simp

theorem word_writeWord (m : Memory) (off width value : Nat) :
    (m.writeWord off width value).word off width = value % 256 ^ width := by
  refine word_eq_mod fun k hk => ?_
  rw [get_writeWord, if_pos (by omega), Nat.add_sub_cancel_left]

theorem word_writeWord_of_disjoint (m : Memory) {off width value off' width' : Nat}
    (h : off' + width' ≤ off ∨ off + width ≤ off') :
    (m.writeWord off width value).word off' width' = m.word off' width' :=
  word_congr fun _ _ _ => get_writeWord_of_outside m (by omega)

/-! ## The search for a changed byte -/

/-- Nothing is found exactly where every byte is zero. -/
theorem findNonzero_eq_none_iff {m : Memory} {off len : Nat} :
    m.findNonzero off len = none ↔ ∀ i, off ≤ i → i < off + len → m.get i = 0 := by
  rw [findNonzero, ByteTree.findNonzero_eq_none_iff]
  constructor
  · intro h i h1 h2
    unfold get
    split
    · exact h i h1 (by omega)
    · rfl
  · intro h i h1 h2
    have := h i h1 (by omega)
    rw [get, if_pos (by omega)] at this
    exact this

/-- What is found is the lowest byte that is not zero. -/
theorem findNonzero_eq_some {m : Memory} {off len i : Nat}
    (h : m.findNonzero off len = some i) :
    off ≤ i ∧ i < off + len ∧ m.get i ≠ 0 ∧ ∀ j, off ≤ j → j < i → m.get j = 0 := by
  obtain ⟨h1, h2, h3, h4⟩ := ByteTree.findNonzero_eq_some h
  refine ⟨h1, by omega, ?_, fun j hj1 hj2 => ?_⟩
  · rw [get, if_pos (by omega)]
    exact h3
  · rw [get, if_pos (by omega)]
    exact h4 j hj1 hj2

end Memory

end GuardedHeap
