/-
  Layout.lean --- the heap as the allocator of the whole system.

  WHAT THIS FILE IS FOR.  The system asks for memory by size and alignment (a
  `Layout`).  Up to the granule the heap answers as it is.  For a larger
  alignment a block is over-allocated, the payload starts at the first aligned
  address that leaves eight bytes in front of it, and those eight bytes hold the
  address of the block, the back reference, so that it can be freed.

  None of this works before a heap is installed.
-/
import GuardedHeap.Heap

set_option autoImplicit false

namespace GuardedHeap

/-- A size with a power of two as alignment, such that rounding the size up to
the alignment stays within the largest request. -/
structure Layout where
  size : Nat
  align : Nat
  align_power : align = 2 ^ align.log2
  fits : size + align ≤ 2 ^ (63 : Nat)
  deriving DecidableEq, Repr

namespace Layout

/-- The layout of a size and an alignment, if there is one. -/
def ofSizeAlign? (size align : Nat) : Option Layout :=
  if h : align = 2 ^ align.log2 ∧ size + align ≤ 2 ^ (63 : Nat) then some ⟨size, align, h.1, h.2⟩
  else none

/-- The heap answers this layout without help. -/
def Plain (l : Layout) : Prop := l.align ≤ granule

instance (l : Layout) : Decidable l.Plain := inferInstanceAs (Decidable (l.align ≤ granule))

/-- Bytes of the back reference. -/
abbrev slotSize : Nat := 8

/-- What is asked of the heap for a layout of large alignment. -/
def paddedSize (l : Layout) : Nat :=
  Word.saturatingAdd (Word.saturatingAdd l.size (l.align - 1)) slotSize

end Layout

namespace Machine

/-- Stops the caller unless a heap is installed. -/
def requireInstalled : HeapM Unit := do
  if !(← get).installed then throw (.panic .notInstalled)

/-- The offset in the window of the slot in front of an aligned payload. -/
def slotOffset (m : Machine) (aligned : Nat) : Nat :=
  aligned - Layout.slotSize - m.arena.window.base

/-- Gives out memory for a layout. -/
def allocateLayout (callback : Callback) (l : Layout) (site : CallSite) : HeapM Nat := do
  requireInstalled
  if l.Plain then allocate callback l.size site
  else
    let block ← allocate callback l.paddedSize site
    let behindSlot ← Word.add block Layout.slotSize
    let aligned ← Word.alignUp behindSlot l.align
    let slot := (← get).slotOffset aligned
    onArena <| modify fun a => { a with memory := a.memory.writeWord slot 8 block }
    return aligned

/-- Takes memory of a layout back. -/
def freeLayout (callback : Callback) (address : Nat) (l : Layout) (site : CallSite) :
    HeapM Unit := do
  requireInstalled
  let m ← get
  let block :=
    if l.Plain then address else m.arena.memory.word (m.slotOffset address) Layout.slotSize
  let _ ← free callback block site

/-- Resizes memory of a layout.  With a large alignment it always moves; if no
layout has the new size the answer is a null address and nothing happens. -/
def reallocateLayout (callback : Callback) (address : Nat) (l : Layout) (newSize : Nat)
    (site : CallSite) : HeapM Nat := do
  if l.Plain then
    requireInstalled
    reallocate callback address newSize site
  else
    match Layout.ofSizeAlign? newSize l.align with
    | none => return 0
    | some newLayout =>
      let target ← allocateLayout callback newLayout site
      let base := (← get).arena.window.base
      onArena (Arena.copyBytes (address - base) (target - base) (min l.size newSize))
      freeLayout callback address l site
      return target

/-- Installs a heap over the window.  A second one is made and then refused. -/
def install : HeapM Unit := do
  let m ← get
  if m.installed then
    log (.started (m.arena.addr 0) (m.arena.addr m.arena.window.floor))
    throw (.panic .installedTwice)
  claimWindow
  coverWindow
  modify fun m => { m with installed := true }

end Machine

end GuardedHeap
