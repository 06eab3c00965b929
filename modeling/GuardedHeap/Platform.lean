/-
  Platform.lean --- what the heap needs from the rest of the system.

  WHAT THIS FILE IS FOR.  Frames of physical memory come from a stack, pages of
  the window are backed by frames in a page table, and somebody is running: an
  execution context on a processor, before or after the end of boot, with
  interrupts on or off.  The heap touches these only through four calls
  (`PlatformCall`) and through looking at the running context.

  Pages are counted from the first page of the window.

  WHAT IS PROVED.  What mapping and unmapping a page leave in the page table.
-/
import GuardedHeap.Identity

set_option autoImplicit false

namespace GuardedHeap

/-- The calls the heap makes to the platform. -/
inductive PlatformCall where
  | allocateFrame
  | mapPage
  | unmapPage
  | releaseFrame
  deriving DecidableEq, Repr

/-- Who is running, and in which state of the system. -/
structure Context where
  id : ContextId
  cpu : Nat
  /-- the system has left early boot -/
  booted : Bool
  /-- interrupts are delivered on this processor -/
  interrupts : Bool
  deriving DecidableEq, Repr

/-- What backs a mapped page: a numbered frame, or nothing that can be given
back, for pages that were there from the start. -/
abbrev Backing := Option Nat

/-- The mapping of the window, one entry per page from its first on. -/
structure PageTable where
  entries : Array (Option Backing)
  deriving DecidableEq, Repr

namespace PageTable

/-- The first `count` pages, mapped from the start. -/
def boot (count : Nat) : PageTable := ⟨Array.replicate count (some none)⟩

/-- What backs a page, if it is mapped. -/
def get? (t : PageTable) (page : Nat) : Option Backing := t.entries[page]?.join

/-- Appends `count` pages that are not mapped. -/
def pad : Nat → Array (Option Backing) → Array (Option Backing)
  | 0, es => es
  | count + 1, es => pad count (es.push none)

/-- Maps a page. -/
def insert (t : PageTable) (page : Nat) (b : Backing) : PageTable :=
  if h : page < t.entries.size then ⟨t.entries.set page (some b) h⟩
  else ⟨(pad (page - t.entries.size) t.entries).push (some b)⟩

/-- Unmaps a page. -/
def erase (t : PageTable) (page : Nat) : PageTable := ⟨t.entries.setIfInBounds page none⟩

/-- How many pages are mapped from the first one on without a gap. -/
def mappedFromStart (t : PageTable) : Nat := (t.entries.toList.takeWhile Option.isSome).length

theorem size_pad (count : Nat) (es : Array (Option Backing)) :
    (pad count es).size = es.size + count := by
  induction count generalizing es with
  | zero => rfl
  | succ count ih => rw [pad, ih, Array.size_push]; omega

theorem getElem?_push_join (es : Array (Option Backing)) (e : Option Backing) (i : Nat) :
    (es.push e)[i]?.join = if i = es.size then e else es[i]?.join := by
  rw [Array.getElem?_push]
  split <;> rfl

theorem getElem?_pad_join (count : Nat) (es : Array (Option Backing)) (i : Nat) :
    (pad count es)[i]?.join = es[i]?.join := by
  induction count generalizing es with
  | zero => rfl
  | succ count ih =>
    rw [pad, ih, getElem?_push_join]
    split
    · rename_i h
      rw [h, Array.getElem?_eq_none (Nat.le_refl _)]
      rfl
    · rfl

/-- Mapping a page changes the entry of that page only. -/
theorem get?_insert (t : PageTable) (page : Nat) (b : Backing) (i : Nat) :
    (t.insert page b).get? i = if i = page then some b else t.get? i := by
  unfold insert get?
  split
  · rename_i h
    simp only
    rw [Array.getElem?_set]
    by_cases hi : page = i
    · rw [if_pos hi, if_pos hi.symm]
      rfl
    · rw [if_neg hi, if_neg (fun x => hi x.symm)]
  · rename_i h
    simp only
    rw [getElem?_push_join, size_pad, getElem?_pad_join]
    have : t.entries.size + (page - t.entries.size) = page := by omega
    rw [this]

theorem get?_erase (t : PageTable) (page i : Nat) :
    (t.erase page).get? i = if i = page then none else t.get? i := by
  unfold erase get?
  simp only
  rw [Array.getElem?_setIfInBounds]
  by_cases hi : page = i
  · rw [if_pos hi, if_pos hi.symm]
    split <;> rfl
  · rw [if_neg hi, if_neg (fun x => hi x.symm)]

end PageTable

/-- Frames and mappings. -/
structure Platform where
  /-- free frames, the next one to be handed out first -/
  frames : List Nat
  /-- the number the next added frame gets -/
  nextFrame : Nat
  pages : PageTable
  /-- unmapped pages do not give their frames back -/
  keepFrames : Bool
  /-- what every byte of a freshly mapped page holds -/
  staleByte : UInt8
  deriving DecidableEq, Repr

end GuardedHeap
