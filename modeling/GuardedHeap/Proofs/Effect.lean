/-
  Proofs/Effect.lean --- running effectful programs step by step.

  WHAT THIS FILE IS FOR.  Operations are programs of an error-and-state monad.
  The equations here say what each of the monad's building blocks does to a
  state, so that a proof about an operation runs it and never opens the monad.

  WHAT IS PROVED.  A program that is bound runs from where the first part left
  off, a lifted pure computation leaves the state alone, and an operation on the
  arena of a machine changes nothing beside the arena.
-/
import GuardedHeap.Call

set_option autoImplicit false

namespace GuardedHeap

section Runs

variable {σ α β : Type}

/-! ## Building blocks -/

@[simp] theorem run_pure (r : α) (s : σ) : (pure r : EStateM Fault σ α) s = .ok r s := rfl

@[simp] theorem run_get (s : σ) : (get : EStateM Fault σ σ) s = .ok s s := rfl

@[simp] theorem run_lift_ok (r : α) (s : σ) :
    (liftM (Except.ok r : Except Fault α) : EStateM Fault σ α) s = .ok r s := rfl

@[simp] theorem run_lift_error (e : Fault) (s : σ) :
    (liftM (Except.error e : Except Fault α) : EStateM Fault σ α) s = .error e s := rfl

/-! ## Sequences -/

theorem run_bind_ok {x : EStateM Fault σ α} {f : α → EStateM Fault σ β} {s s' : σ} {r : α}
    (h : x s = .ok r s') : (x >>= f) s = f r s' := by
  show EStateM.bind x f s = f r s'
  unfold EStateM.bind
  rw [h]

theorem run_bind_error {x : EStateM Fault σ α} {f : α → EStateM Fault σ β} {s s' : σ} {e : Fault}
    (h : x s = .error e s') : (x >>= f) s = .error e s' := by
  show EStateM.bind x f s = .error e s'
  unfold EStateM.bind
  rw [h]

/-! ## Handlers -/

theorem run_tryCatch_ok {x : EStateM Fault σ α} {handle : Fault → EStateM Fault σ α} {s s' : σ}
    {r : α} (h : x s = .ok r s') : (tryCatch x handle) s = .ok r s' := by
  show EStateM.tryCatch x handle s = .ok r s'
  unfold EStateM.tryCatch
  rw [h]

theorem run_tryCatch_error {x : EStateM Fault σ α} {handle : Fault → EStateM Fault σ α}
    {s s' : σ} {e : Fault} (h : x s = .error e s') : (tryCatch x handle) s = handle e s' := by
  show EStateM.tryCatch x handle s = handle e s'
  unfold EStateM.tryCatch
  rw [h]
  rfl

end Runs

/-! ## Parts of a machine -/

@[simp] theorem Machine.run_log (line : LogLine) (m : Machine) :
    Machine.log line m = .ok () { m with journal := m.journal.push line } := rfl

theorem Machine.run_onArena_ok {α : Type} {x : ArenaM α} {m : Machine} {a : Arena} {r : α}
    (h : x m.arena = .ok r a) : Machine.onArena x m = .ok r { m with arena := a } := by
  unfold Machine.onArena
  rw [h]

theorem Machine.run_onArena_error {α : Type} {x : ArenaM α} {m : Machine} {a : Arena} {e : Fault}
    (h : x m.arena = .error e a) : Machine.onArena x m = .error e { m with arena := a } := by
  unfold Machine.onArena
  rw [h]

/-! ## Both ways to end -/

namespace Machine

section Ends

variable {α : Type} {Q Q' : α → Machine → Prop} {E E' : Fault → Machine → Prop}

/-- An operation ended with a value and a machine that satisfy `Q`, or failed
with a fault and a machine that satisfy `E`. -/
def Ends (Q : α → Machine → Prop) (E : Fault → Machine → Prop) :
    EStateM.Result Fault Machine α → Prop
  | .ok r m => Q r m
  | .error e m => E e m

theorem Ends.mono {r : EStateM.Result Fault Machine α} (h : Ends Q E r)
    (hq : ∀ a n, Q a n → Q' a n) (he : ∀ e n, E e n → E' e n) : Ends Q' E' r := by
  cases r with
  | ok a n => exact hq a n h
  | error e n => exact he e n h

/-- What follows an operation continues from where that ended. -/
theorem Ends.bind {β : Type} {P : β → Machine → Prop} {x : HeapM α} {f : α → HeapM β} {m : Machine}
    (h : Ends Q E (x m)) (hf : ∀ r n, Q r n → Ends P E (f r n)) : Ends P E ((x >>= f) m) := by
  cases hx : x m with
  | ok r n =>
    rw [hx] at h
    rw [run_bind_ok hx]
    exact hf r n h
  | error e n =>
    rw [hx] at h
    rw [run_bind_error hx]
    exact h

end Ends

end Machine

/-! ## Running to the end -/

namespace Machine

variable {α : Type}

/-- An operation that ended with a value or a fault, and the machine it left. -/
def ended (r : Except Fault α) (m : Machine) : EStateM.Result Fault Machine α :=
  match r with
  | .ok a => .ok a m
  | .error e => .error e m

/-- The machine an operation leaves, however it ends. -/
def after (x : HeapM α) (m : Machine) : Machine :=
  match x m with
  | .ok _ m => m
  | .error _ m => m

/-- Whether an operation returns a given value. -/
def returns [DecidableEq α] (x : HeapM α) (m : Machine) (r : α) : Bool :=
  match x m with
  | .ok r' _ => r' = r
  | .error _ _ => false

/-- Whether an operation ends in a given fault. -/
def fails (x : HeapM α) (m : Machine) (e : Fault) : Bool :=
  match x m with
  | .ok _ _ => false
  | .error e' _ => e' = e

theorem run_of_returns [DecidableEq α] {x : HeapM α} {m : Machine} {r : α}
    (h : returns x m r = true) : x m = .ok r (after x m) := by
  unfold returns at h
  unfold after
  cases hx : x m with
  | ok r' m' =>
    rw [hx] at h
    rw [of_decide_eq_true h]
  | error e' m' =>
    rw [hx] at h
    cases h

theorem run_of_fails {x : HeapM α} {m : Machine} {e : Fault} (h : fails x m e = true) :
    x m = .error e (after x m) := by
  unfold fails at h
  unfold after
  cases hx : x m with
  | ok r' m' =>
    rw [hx] at h
    cases h
  | error e' m' =>
    rw [hx] at h
    rw [of_decide_eq_true h]

end Machine

end GuardedHeap
