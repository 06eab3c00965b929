/-
  Header.lean --- the header in front of every payload.

  WHAT THIS FILE IS FOR.  Every block, used or free, starts with a header of 64
  bytes, and its payload follows.  The header lives in the memory of the window
  beside the payloads, so it can be damaged; its first word is a guard that an
  intact header always has.  `Header` is what an intact header says, `load` and
  `store` are its form in memory:

      0  guard, 4 bytes            16  prev link     40  allocating context,
      4  used flag                 24  next link         a presence word and
      8  payload size              32  allocated at      the identity
                                                     56  freed at

  A link is the offset of a neighbor, all ones for none; a call site is its
  number plus one, zero for none.  Where no context is recorded the identity has no
  value, and the word for it keeps what was there; nor has the padding behind the
  used flag.

  WHAT IS PROVED.  A stored header has its guard and loads back, as long as its
  size and links are words; storing it touches its 64 bytes only, and loading
  it looks at nothing else, nor at the bytes that have no value.
-/
import GuardedHeap.Memory

set_option autoImplicit false

namespace GuardedHeap

/-- Bytes of a header. -/
abbrev headerSize : Nat := 64

/-- The granule of payload sizes and addresses. -/
abbrev granule : Nat := 16

/-- The first word of an intact header. -/
def guardWord : Nat := 0xdeadbeef

/-- What an intact header says of its segment. -/
structure Header where
  used : Bool
  /-- payload bytes behind the header -/
  size : Nat
  prev : Option Nat
  next : Option Nat
  /-- where the block was allocated, recorded while tracing -/
  allocatedAt : Option CallSite
  /-- who allocated the block, recorded while tracing -/
  allocatedBy : Option ContextId
  /-- where the segment was last freed -/
  freedAt : Option CallSite
  deriving DecidableEq, Repr

namespace Header

/-- The header of a fresh free segment. -/
def free (prev next : Option Nat) (size : Nat) : Header :=
  ⟨false, size, prev, next, none, none, none⟩

/-! ## Fields as words -/

/-- A link as a word. -/
def linkWord : Option Nat → Nat
  | none => 2 ^ (64 : Nat) - 1
  | some off => off

/-- The link a word stands for. -/
def linkOfWord (w : Nat) : Option Nat := if w = 2 ^ (64 : Nat) - 1 then none else some w

/-- A recorded call site as a word. -/
def siteWord : Option CallSite → Nat
  | none => 0
  | some s => s.number.toNat + 1

/-- The call site a word stands for. -/
def siteOfWord (w : Nat) : Option CallSite :=
  if w = 0 then none else some ⟨UInt32.ofNat (w - 1)⟩

theorem linkOfWord_linkWord {link : Option Nat} (h : ∀ off ∈ link, off < 2 ^ (64 : Nat) - 1) :
    linkOfWord (linkWord link) = link := by
  cases link with
  | none => rfl
  | some off =>
    have := h off rfl
    rw [linkWord, linkOfWord, if_neg (by omega)]

theorem linkOfWord_lt {w off : Nat} (hw : w < 2 ^ (64 : Nat)) (h : linkOfWord w = some off) :
    off < 2 ^ (64 : Nat) - 1 := by
  unfold linkOfWord at h
  split at h
  · cases h
  · cases h; omega

theorem linkWord_linkOfWord (w : Nat) : linkWord (linkOfWord w) = w := by
  unfold linkOfWord
  split
  · rename_i h; rw [h]; rfl
  · rfl

theorem siteOfWord_siteWord (site : Option CallSite) : siteOfWord (siteWord site) = site := by
  cases site with
  | none => rfl
  | some s =>
    rw [siteWord, siteOfWord, if_neg (by omega), Nat.add_sub_cancel, UInt32.ofNat_toNat]

theorem siteWord_lt (site : Option CallSite) : siteWord site < 2 ^ (64 : Nat) := by
  cases site with
  | none => decide
  | some s =>
    have := s.number.toNat_lt
    rw [siteWord]
    omega

/-! ## The form in memory -/

/-- The guard in front of whatever stands at an offset. -/
def guardAt (m : Memory) (off : Nat) : Nat := m.word off 4

/-- The size word of whatever stands at an offset. -/
def sizeAt (m : Memory) (off : Nat) : Nat := m.word (off + 8) 8

/-- Reads the fields at an offset, whatever the guard. -/
def load (m : Memory) (off : Nat) : Header where
  used := m.get (off + 4) != 0
  size := sizeAt m off
  prev := linkOfWord (m.word (off + 16) 8)
  next := linkOfWord (m.word (off + 24) 8)
  allocatedAt := siteOfWord (m.word (off + 32) 8)
  allocatedBy :=
    if m.word (off + 40) 8 = 0 then none else some ⟨UInt64.ofNat (m.word (off + 48) 8)⟩
  freedAt := siteOfWord (m.word (off + 56) 8)

/-- Stores the allocating context: a presence word, then the identity.  Where there is none,
the word for the identity is left as it is. -/
def storeOwner (m : Memory) (off : Nat) : Option ContextId → Memory
  | none => m.writeWord (off + 40) 8 0
  | some c => (m.writeWord (off + 40) 8 1).writeWord (off + 48) 8 c.value.toNat

/-- Writes an intact header over the 64 bytes at an offset. -/
def store (m : Memory) (off : Nat) (h : Header) : Memory :=
  let m := m.writeWord off 4 guardWord
  let m := m.writeWord (off + 4) 4 h.used.toNat
  let m := m.writeWord (off + 8) 8 h.size
  let m := m.writeWord (off + 16) 8 (linkWord h.prev)
  let m := m.writeWord (off + 24) 8 (linkWord h.next)
  let m := m.writeWord (off + 32) 8 (siteWord h.allocatedAt)
  let m := storeOwner m off h.allocatedBy
  m.writeWord (off + 56) 8 (siteWord h.freedAt)

/-! ## Laws of the form in memory -/

/-- The size and the links of a header are words, and no link is the word that
stands for none. -/
structure Storable (h : Header) : Prop where
  size_lt : h.size < 2 ^ (64 : Nat)
  prev_lt : ∀ off ∈ h.prev, off < 2 ^ (64 : Nat) - 1
  next_lt : ∀ off ∈ h.next, off < 2 ^ (64 : Nat) - 1

theorem storable_load (m : Memory) (off : Nat) : (load m off).Storable := by
  have word_lt (start : Nat) : m.word start 8 < 2 ^ (64 : Nat) :=
    Nat.lt_of_lt_of_eq (m.word_lt start 8) (by decide)
  refine ⟨word_lt (off + 8), fun link h => ?_, fun link h => ?_⟩
  · simp only [load, Option.mem_def] at h
    exact linkOfWord_lt (word_lt (off + 16)) h
  · simp only [load, Option.mem_def] at h
    exact linkOfWord_lt (word_lt (off + 24)) h

theorem get_storeOwner_of_outside {m : Memory} {off i : Nat} (owner : Option ContextId)
    (h : i < off + 40 ∨ off + 56 ≤ i) : (storeOwner m off owner).get i = m.get i := by
  cases owner with
  | none => exact Memory.get_writeWord_of_outside _ (by omega)
  | some c =>
    rw [storeOwner, Memory.get_writeWord_of_outside _ (by omega),
      Memory.get_writeWord_of_outside _ (by omega)]

theorem get_store_of_outside {m : Memory} {off i : Nat} (h : Header)
    (hi : i < off ∨ off + headerSize ≤ i) : (store m off h).get i = m.get i := by
  simp only [headerSize] at hi
  unfold store
  simp only
  rw [Memory.get_writeWord_of_outside _ (by omega), get_storeOwner_of_outside _ (by omega),
    Memory.get_writeWord_of_outside _ (by omega), Memory.get_writeWord_of_outside _ (by omega),
    Memory.get_writeWord_of_outside _ (by omega), Memory.get_writeWord_of_outside _ (by omega),
    Memory.get_writeWord_of_outside _ (by omega), Memory.get_writeWord_of_outside _ (by omega)]

theorem get_storeOwner_congr {m n : Memory} {i : Nat} (off : Nat) (owner : Option ContextId)
    (h : m.get i = n.get i) : (storeOwner m off owner).get i = (storeOwner n off owner).get i := by
  cases owner with
  | none => exact Memory.get_writeWord_congr _ _ _ h
  | some c => exact Memory.get_writeWord_congr _ _ _ (Memory.get_writeWord_congr _ _ _ h)

theorem get_store_congr {m n : Memory} {i : Nat} (off : Nat) (h : Header)
    (hi : m.get i = n.get i) : (store m off h).get i = (store n off h).get i := by
  unfold store
  refine Memory.get_writeWord_congr _ _ _ (get_storeOwner_congr _ _ ?_)
  exact Memory.get_writeWord_congr _ _ _ (Memory.get_writeWord_congr _ _ _
    (Memory.get_writeWord_congr _ _ _ (Memory.get_writeWord_congr _ _ _
      (Memory.get_writeWord_congr _ _ _ (Memory.get_writeWord_congr _ _ _ hi)))))

theorem load_congr {m n : Memory} {off : Nat}
    (h : ∀ i, off ≤ i → i < off + headerSize → m.get i = n.get i) : load m off = load n off := by
  simp only [headerSize] at h
  have word (d : Nat) (hd : d + 8 ≤ 64) : m.word (off + d) 8 = n.word (off + d) 8 :=
    Memory.word_congr fun i h1 h2 => h i (by omega) (by omega)
  simp only [load, sizeAt, word 8 (by omega), word 16 (by omega), word 24 (by omega),
    word 32 (by omega), word 40 (by omega), word 48 (by omega), word 56 (by omega),
    h (off + 4) (by omega) (by omega)]

theorem guardAt_congr {m n : Memory} {off : Nat}
    (h : ∀ i, off ≤ i → i < off + 4 → m.get i = n.get i) : guardAt m off = guardAt n off :=
  Memory.word_congr h

theorem word_storeOwner_of_disjoint {m : Memory} {off start width : Nat}
    (owner : Option ContextId) (h : start + width ≤ off + 40 ∨ off + 56 ≤ start) :
    (storeOwner m off owner).word start width = m.word start width :=
  Memory.word_congr fun _ _ _ => get_storeOwner_of_outside owner (by omega)

theorem guardAt_store (m : Memory) (off : Nat) (h : Header) :
    guardAt (store m off h) off = guardWord := by
  unfold guardAt store
  simp only
  rw [Memory.word_writeWord_of_disjoint _ (by omega), word_storeOwner_of_disjoint _ (by omega),
    Memory.word_writeWord_of_disjoint _ (by omega), Memory.word_writeWord_of_disjoint _ (by omega),
    Memory.word_writeWord_of_disjoint _ (by omega), Memory.word_writeWord_of_disjoint _ (by omega),
    Memory.word_writeWord_of_disjoint _ (by omega), Memory.word_writeWord]
  rfl

theorem word_store_size (m : Memory) (off : Nat) {h : Header} (hs : h.size < 2 ^ (64 : Nat)) :
    (store m off h).word (off + 8) 8 = h.size := by
  unfold store
  simp only
  rw [Memory.word_writeWord_of_disjoint _ (by omega), word_storeOwner_of_disjoint _ (by omega),
    Memory.word_writeWord_of_disjoint _ (by omega), Memory.word_writeWord_of_disjoint _ (by omega),
    Memory.word_writeWord_of_disjoint _ (by omega), Memory.word_writeWord]
  exact Nat.mod_eq_of_lt hs

theorem linkWord_lt {link : Option Nat} (h : ∀ off ∈ link, off < 2 ^ (64 : Nat) - 1) :
    linkWord link < 2 ^ (64 : Nat) := by
  cases link with
  | none => decide
  | some off =>
    have := h off rfl
    rw [linkWord]
    omega

theorem word_store_prev (m : Memory) (off : Nat) {h : Header} (hs : h.Storable) :
    (store m off h).word (off + 16) 8 = linkWord h.prev := by
  unfold store
  simp only
  rw [Memory.word_writeWord_of_disjoint _ (by omega), word_storeOwner_of_disjoint _ (by omega),
    Memory.word_writeWord_of_disjoint _ (by omega), Memory.word_writeWord_of_disjoint _ (by omega),
    Memory.word_writeWord]
  exact Nat.mod_eq_of_lt (linkWord_lt hs.prev_lt)

theorem word_store_next (m : Memory) (off : Nat) {h : Header} (hs : h.Storable) :
    (store m off h).word (off + 24) 8 = linkWord h.next := by
  unfold store
  simp only
  rw [Memory.word_writeWord_of_disjoint _ (by omega), word_storeOwner_of_disjoint _ (by omega),
    Memory.word_writeWord_of_disjoint _ (by omega), Memory.word_writeWord]
  exact Nat.mod_eq_of_lt (linkWord_lt hs.next_lt)

theorem word_store_allocatedAt (m : Memory) (off : Nat) (h : Header) :
    (store m off h).word (off + 32) 8 = siteWord h.allocatedAt := by
  unfold store
  simp only
  rw [Memory.word_writeWord_of_disjoint _ (by omega), word_storeOwner_of_disjoint _ (by omega),
    Memory.word_writeWord]
  exact Nat.mod_eq_of_lt (siteWord_lt _)

theorem word_store_freedAt (m : Memory) (off : Nat) (h : Header) :
    (store m off h).word (off + 56) 8 = siteWord h.freedAt := by
  unfold store
  simp only
  rw [Memory.word_writeWord]
  exact Nat.mod_eq_of_lt (siteWord_lt _)

theorem get_writeWord_first (m : Memory) (off width value : Nat) :
    (m.writeWord off (width + 1) value).get off = UInt8.ofNat (value % 256) := by
  rw [Memory.get_writeWord, if_pos (by omega), Nat.sub_self, Memory.byteOf_zero]

theorem get_store_used (m : Memory) (off : Nat) (h : Header) :
    (store m off h).get (off + 4) = UInt8.ofNat h.used.toNat := by
  unfold store
  simp only
  rw [Memory.get_writeWord_of_outside _ (by omega), get_storeOwner_of_outside _ (by omega),
    Memory.get_writeWord_of_outside _ (by omega), Memory.get_writeWord_of_outside _ (by omega),
    Memory.get_writeWord_of_outside _ (by omega), Memory.get_writeWord_of_outside _ (by omega),
    get_writeWord_first]
  cases h.used <;> rfl

theorem owner_store (m : Memory) (off : Nat) (h : Header) :
    (if (store m off h).word (off + 40) 8 = 0 then none
      else some ⟨UInt64.ofNat ((store m off h).word (off + 48) 8)⟩) = h.allocatedBy := by
  unfold store
  simp only
  rw [Memory.word_writeWord_of_disjoint _ (by omega),
    Memory.word_writeWord_of_disjoint _ (by omega)]
  cases h.allocatedBy with
  | none =>
    rw [storeOwner, Memory.word_writeWord]
    rfl
  | some c =>
    rw [storeOwner, Memory.word_writeWord_of_disjoint _ (by omega), Memory.word_writeWord,
      Memory.word_writeWord, if_neg (by decide)]
    have hc : c.value.toNat < 2 ^ (64 : Nat) := c.value.toNat_lt
    rw [Nat.mod_eq_of_lt (show c.value.toNat < 256 ^ 8 from hc), UInt64.ofNat_toNat]

theorem load_store (m : Memory) (off : Nat) {h : Header} (hs : h.Storable) :
    load (store m off h) off = h := by
  unfold load sizeAt
  rw [word_store_size m off hs.size_lt, word_store_prev m off hs, word_store_next m off hs,
    word_store_allocatedAt, word_store_freedAt, get_store_used, owner_store,
    linkOfWord_linkWord hs.prev_lt, linkOfWord_linkWord hs.next_lt, siteOfWord_siteWord,
    siteOfWord_siteWord]
  cases h with
  | mk used size prev next allocatedAt allocatedBy freedAt =>
    cases used <;> rfl

/-! ## Bytes without a value -/

/-- The bytes of a header, by distance from its start, that have no value: the padding behind
the used flag, and the identity where no context is recorded. -/
def Blank (h : Header) (d : Nat) : Prop :=
  5 ≤ d ∧ d < 8 ∨ h.allocatedBy = none ∧ 48 ≤ d ∧ d < 56

theorem Blank.lt_headerSize {h : Header} {d : Nat} (hd : h.Blank d) : d < headerSize := by
  simp only [Blank, headerSize] at *
  omega

section Blank

variable {m : Memory} {off d : Nat}

theorem guardAt_set_of_blank {h : Header} (hd : h.Blank d) (b : UInt8) :
    guardAt (m.set (off + d) b) off = guardAt m off := by
  refine guardAt_congr fun i _ hi => ?_
  unfold Blank at hd
  rw [Memory.get_set, if_neg (by omega)]

/-- Loading a header does not depend on them. -/
theorem load_set_of_blank (hd : (load m off).Blank d) (b : UInt8) :
    load (m.set (off + d) b) off = load m off := by
  have hrange : 5 ≤ d ∧ d < 8 ∨ 48 ≤ d ∧ d < 56 := by
    unfold Blank at hd
    omega
  have word (start : Nat) (h : start + 8 ≤ 48 ∧ 8 ≤ start ∨ 56 ≤ start) :
      (m.set (off + d) b).word (off + start) 8 = m.word (off + start) 8 :=
    Memory.word_congr fun i _ _ => by rw [Memory.get_set, if_neg (by omega)]
  have hused : (m.set (off + d) b).get (off + 4) = m.get (off + 4) := by
    rw [Memory.get_set, if_neg (by omega)]
  have howner : (load (m.set (off + d) b) off).allocatedBy = (load m off).allocatedBy := by
    simp only [load, word 40 (by omega)]
    by_cases hzero : m.word (off + 40) 8 = 0
    · rw [if_pos hzero, if_pos hzero]
    · -- a recorded identity has a value, so the byte is one of the padding
      have hpad : ¬ (load m off).allocatedBy = none := by simp [load, hzero]
      have hsame : (m.set (off + d) b).word (off + 48) 8 = m.word (off + 48) 8 := by
        have hnear : 5 ≤ d ∧ d < 8 := hd.resolve_right fun h => hpad h.1
        exact Memory.word_congr fun i _ _ => by rw [Memory.get_set, if_neg (by omega)]
      rw [hsame]
  rw [Header.mk.injEq]
  simp only [load, sizeAt, word 8 (by omega), word 16 (by omega), word 24 (by omega),
    word 32 (by omega), word 56 (by omega), hused] at howner ⊢
  simp only [howner, and_self]

end Blank

end Header

end GuardedHeap
