/-
  Script/Session.lean --- the state a script runs in.

  WHAT THIS FILE IS FOR.  A session drives one subject step by step: a heap, an
  allocator that may not be installed yet, a bare segment list, a bare window,
  or the lock alone.  It knows the names given to pointers, the hook that waits
  for a platform call, and who holds a guard of the lock.

  Here are the parts all steps share: pointers as scripts write them, what lies
  in mapped memory, and which state an answer shows.
-/
import GuardedHeap.Call
import GuardedHeap.Script.Render

set_option autoImplicit false

namespace GuardedHeap

/-- What a session drives. -/
inductive Subject where
  | heap
  | allocator
  | segments
  | window
  | lock
  deriving DecidableEq, Repr

/-- A step that waits for a platform call to run in. -/
structure Hook where
  /-- the step and its arguments -/
  verb : String
  arguments : Value
  /-- the context that runs the step, if it is another one -/
  context : Option ContextId
  yields : Nat
  /-- a failure of the step goes on through the platform call -/
  propagate : Bool

/-- Pointers bound to names, the latest first. -/
abbrev Names := List (String × Nat)

/-- The state a script runs in. -/
structure Session where
  subject : Subject
  machine : Machine
  names : Names
  hook : Option Hook
  /-- the value under the lock, in a session on the lock alone -/
  cell : Nat
  /-- the slot that holds the guard of the lock -/
  guardSlot : Option Nat

/-- Steps of a script. -/
abbrev ScriptM := EStateM Fault Session

namespace Session

/-! ## Shared parts -/

/-- Turns a request down. -/
def refuse {α : Type} (reason : Refusal) : Except Fault α := .error (.refused reason)

/-- Runs an operation on the machine of the session. -/
def onMachine {α : Type} (x : HeapM α) : ScriptM α := fun s =>
  match x s.machine with
  | .ok r m => .ok r { s with machine := m }
  | .error e m => .error e { s with machine := m }

/-- The call site a number stands for; there are eight. -/
def siteOfNumber (n : Nat) : CallSite := ⟨UInt32.ofNat (min n 7)⟩

/-- The call site of a step. -/
def siteOf (v : Value) : CallSite := siteOfNumber (v.wordField "site" 0)

/-- The context a word stands for. -/
def contextOfWord (n : Nat) : ContextId := ⟨UInt64.ofNat n⟩

/-! ## Mapped memory -/

/-- Bytes mapped from the base of the window on. -/
def mappedBytes (m : Machine) : Nat := m.platform.pages.mappedFromStart * pageSize

/-- The offset of a range of addresses that lies in mapped memory. -/
def offsetOf (m : Machine) (addr len : Nat) : Except Fault Nat :=
  let base := m.arena.window.base
  if base ≤ addr ∧ addr + len ≤ base + mappedBytes m then .ok (addr - base)
  else refuse .outside

/-! ## Pointers -/

/-- A field of a record is smaller than the record. -/
theorem sizeOf_field?_lt {v w : Value} {name : String} (h : v.field? name = some w) :
    sizeOf w < sizeOf v := by
  have lookup_lt : ∀ fs : List (String × Value), fs.lookup name = some w →
      sizeOf w < sizeOf fs := by
    intro fs
    induction fs with
    | nil => intro h; cases h
    | cons f fs ih =>
      obtain ⟨k, x⟩ := f
      intro h
      rw [List.lookup_cons] at h
      split at h
      · cases h
        simp only [List.cons.sizeOf_spec, Prod.mk.sizeOf_spec]
        omega
      · have := ih h
        simp only [List.cons.sizeOf_spec]
        omega
  cases v with
  | record fs =>
    have := lookup_lt fs h
    simp only [Value.record.sizeOf_spec]
    omega
  | _ => cases h

/-- An address moved by a signed distance; addresses wrap. -/
def moved (addr : Nat) (distance : Int) : Nat := ((addr + distance) % 2 ^ (64 : Nat)).toNat

/-- The address a script means.  Nothing is address zero; a text with the mark of
hexadecimal has to be an address, and any other text is a name; a record is a
distance from another pointer, or from the base of the window. -/
def pointer (base : Nat) (names : Names) (v : Value) : Except Fault Nat :=
  match v with
  | .null => .ok 0
  | .text s =>
    if Hex.isMarked s then
      match v.word? with
      | some addr => .ok addr
      | none => refuse .badInput
    else
      match names.lookup s with
      | some addr => .ok addr
      | none => refuse .unbound
  | .record fields =>
    match ((Value.record fields).field "off").distance? with
    | none => refuse .badInput
    | some distance =>
      match _h : (Value.record fields).field? "of" with
      | none => .ok (moved base distance)
      | some origin => do
        let addr ← pointer base names origin
        return moved addr distance
  | _ => refuse .badInput
termination_by sizeOf v
decreasing_by exact sizeOf_field?_lt _h

/-- The address in the pointer field of a step. -/
def pointerField (m : Machine) (names : Names) (v : Value) : Except Fault Nat :=
  pointer m.arena.window.base names (v.field "ptr")

/-! ## The state an answer shows -/

/-- The fields that show the state of the subject. -/
def stateFields (s : Session) : List (String × Value) :=
  let m := s.machine
  let backing :=
    [("mapped", Value.ofNat m.platform.pages.mappedFromStart),
      ("frames", Value.ofNat m.platform.frames.length)]
  match s.subject with
  | .lock =>
    [("holder", .ofNat? (m.lock.holder.map fun c => c.value.toNat)),
      ("locked", .flag m.lock.locked)]
  | .window =>
    backing ++ [("top", .ofNat m.arena.top), ("pages", .ofNat m.arena.mappedPages)]
  | _ =>
    let found := Sightings.find m.arena.memory (mappedBytes m)
    backing ++ [("segs", .ofTexts (found.places.map Render.sighting))]

end Session

end GuardedHeap
