/-
  Proofs/Damage/Links.lean --- the look at the links around a block.

  WHAT THIS FILE IS FOR.  Behind the guard of a header stand its size and its links, and
  clients may overwrite these too and leave the guard as it is.  Giving a block back looks
  at the headers it is about to relink before it changes one of them.

  WHAT IS PROVED.  The look succeeds exactly where the links of the block, and those of its
  free neighbors, lead to headers with a guard, where a neighbor may be (`Vouched`).  What
  else it finds is a detected error.
-/
import GuardedHeap.Proofs.Damage.Release

set_option autoImplicit false

namespace GuardedHeap

/-! ## Checks -/

/-- A computation that returns `r` where `C` holds, and fails with a detected error where
it does not. -/
inductive Checks {α : Type} (C : Prop) (r : α) : Except Fault α → Prop
  | passes : C → Checks C r (.ok r)
  | fails {error : HeapError} : ¬ C → Checks C r (.error (.detected error))

namespace Checks

variable {α β : Type} {C D : Prop} {r : α} {q : β} {x : Except Fault α}

theorem congr (h : Checks C r x) (hiff : C ↔ D) : Checks D r x := by
  cases h with
  | passes hc => exact .passes (hiff.mp hc)
  | fails hc => exact .fails fun hd => hc (hiff.mpr hd)

theorem eq_ok (h : Checks C r x) (hc : C) : x = .ok r := by
  cases h with
  | passes => rfl
  | fails hn => exact absurd hc hn

theorem cond_of_eq_ok (h : Checks C r x) {t : α} (hx : x = .ok t) : C := by
  cases h with
  | passes hc => exact hc
  | fails => cases hx

theorem eq_error (h : Checks C r x) (hc : ¬ C) : ∃ error, x = .error (.detected error) := by
  cases h with
  | passes hp => exact absurd hp hc
  | fails => exact ⟨_, rfl⟩

/-- One check comes after the other. -/
theorem bind {f : α → Except Fault β} (h : Checks C r x) (hf : C → Checks D q (f r)) :
    Checks (C ∧ D) q (x >>= f) := by
  cases h with
  | passes hc =>
    cases hq : f r with
    | ok t =>
      have hfr := hf hc
      rw [hq] at hfr
      cases hfr with
      | passes hd =>
        show Checks (C ∧ D) q (f r)
        rw [hq]
        exact .passes ⟨hc, hd⟩
    | error e =>
      have hfr := hf hc
      rw [hq] at hfr
      cases hfr with
      | fails hd =>
        show Checks (C ∧ D) q (f r)
        rw [hq]
        exact .fails fun h => hd h.2
  | fails hc => exact .fails fun h => hc h.1

end Checks

namespace Arena

/-! ## Links that lead somewhere -/

/-- The previous link of the header at an offset leads to a guard in front of it. -/
def LinksBack (a : Arena) (off : Nat) : Prop :=
  ((Header.load a.memory off).prev = none → off = 0) ∧
    ∀ q ∈ (Header.load a.memory off).prev,
      (q < off ∧ q % granule = 0) ∧ Header.guardAt a.memory q = guardWord

/-- The next link of the header at an offset leads to a guard where its payload ends. -/
def LinksAhead (a : Arena) (off : Nat) : Prop :=
  ∀ n ∈ (Header.load a.memory off).next,
    (n = off + headerSize + (Header.load a.memory off).size ∧ n + headerSize ≤ a.top) ∧
      Header.guardAt a.memory n = guardWord

instance (a : Arena) (off : Nat) : Decidable (a.LinksBack off) :=
  inferInstanceAs (Decidable (_ ∧ _))

instance (a : Arena) (off : Nat) : Decidable (a.LinksAhead off) :=
  inferInstanceAs (Decidable (∀ n ∈ (Header.load a.memory off).next, _))

/-- The links of the header at an offset lead to guards, and so do those of the headers
there that say they are free, on either side. -/
structure Vouched (a : Arena) (off : Nat) : Prop where
  back : a.LinksBack off
  ahead : a.LinksAhead off
  before : ∀ q ∈ (Header.load a.memory off).prev,
    (Header.load a.memory q).used = false → a.LinksBack q
  after : ∀ n ∈ (Header.load a.memory off).next,
    (Header.load a.memory n).used = false → a.LinksAhead n

theorem vouched_iff {a : Arena} {off : Nat} :
    a.Vouched off ↔ a.LinksBack off ∧ a.LinksAhead off ∧
      (∀ q ∈ (Header.load a.memory off).prev,
        (Header.load a.memory q).used = false → a.LinksBack q) ∧
      ∀ n ∈ (Header.load a.memory off).next,
        (Header.load a.memory n).used = false → a.LinksAhead n :=
  ⟨fun h => ⟨h.back, h.ahead, h.before, h.after⟩, fun h => ⟨h.1, h.2.1, h.2.2.1, h.2.2.2⟩⟩

instance (a : Arena) (off : Nat) : Decidable (a.Vouched off) :=
  decidable_of_iff' _ vouched_iff

section Looking

variable {a : Arena} {off : Nat}

theorem checks_read (hroom : off + headerSize ≤ a.top) (htop : a.top < 2 ^ 64) :
    Checks (Header.guardAt a.memory off = guardWord) (Header.load a.memory off) (a.read off) := by
  have hstop : Word.add off headerSize = .ok (off + headerSize) :=
    Word.add_eq_ok.mpr ⟨rfl, by omega⟩
  unfold read
  rw [hstop]
  simp only [bind, Except.bind, if_neg (Nat.not_lt.mpr hroom)]
  split
  · exact .passes (by assumption)
  · exact .fails (by assumption)

theorem checks_predecessor (off : Nat) (h : Header) :
    Checks ((h.prev = none → off = 0) ∧ ∀ q, h.prev = some q → q < off ∧ q % granule = 0) h.prev
      (a.predecessor off h) := by
  unfold predecessor
  cases h.prev with
  | none =>
    dsimp only
    split
    · exact .passes ⟨fun _ => by assumption, nofun⟩
    · exact .fails fun hc => absurd (hc.1 rfl) (by assumption)
  | some q =>
    dsimp only
    split
    · exact .passes ⟨nofun, fun p hp => Option.some.inj hp ▸ by assumption⟩
    · exact .fails fun hc => absurd (hc.2 q rfl) (by assumption)

theorem checks_successor (off : Nat) (h : Header) :
    Checks (∀ n, h.next = some n → n = off + headerSize + h.size ∧ n + headerSize ≤ a.top) h.next
      (a.successor off h) := by
  unfold successor
  cases h.next with
  | none => exact .passes nofun
  | some n =>
    dsimp only
    split
    · exact .passes fun p hp => Option.some.inj hp ▸ by assumption
    · exact .fails fun hc => absurd (hc n rfl) (by assumption)

/-- Reading the header a link leads to. -/
def touch (a : Arena) : Option Nat → Except Fault Unit
  | none => .ok ()
  | some q => do
    let _ ← a.read q
    .ok ()

theorem checks_touch {link : Option Nat} (hroom : ∀ q, link = some q → q + headerSize ≤ a.top)
    (htop : a.top < 2 ^ 64) :
    Checks (∀ q, link = some q → Header.guardAt a.memory q = guardWord) () (a.touch link) := by
  cases link with
  | none => exact .passes nofun
  | some q =>
    have hdone : Checks True () (.ok () : Except Fault Unit) := .passes trivial
    refine ((checks_read (hroom q rfl) htop).bind fun _ => hdone).congr ?_
    exact ⟨fun h p hp => Option.some.inj hp ▸ h.1, fun h => ⟨h q rfl, trivial⟩⟩

/-- The look at a neighbor checks its guard, and where that says it is free, its own link
in the same direction. -/
theorem checks_lookAt {follow : Nat → Header → Except Fault (Option Nat)} {F : Nat → Prop}
    {beyond : Header → Option Nat} {link : Option Nat}
    (hfollow : ∀ q, Checks (F q) (beyond (Header.load a.memory q))
      (follow q (Header.load a.memory q)))
    (hroom : ∀ q, link = some q → q + headerSize ≤ a.top)
    (hbeyond : ∀ q, link = some q → F q → ∀ b, beyond (Header.load a.memory q) = some b →
      b + headerSize ≤ a.top) (htop : a.top < 2 ^ 64) :
    Checks (∀ q, link = some q → Header.guardAt a.memory q = guardWord ∧
        ((Header.load a.memory q).used = false → F q ∧
          ∀ b, beyond (Header.load a.memory q) = some b → Header.guardAt a.memory b = guardWord))
      () (Machine.lookAt a follow link) := by
  cases link with
  | none => exact .passes nofun
  | some q =>
    have htail : Checks ((Header.load a.memory q).used = false → F q ∧
          ∀ b, beyond (Header.load a.memory q) = some b → Header.guardAt a.memory b = guardWord)
        () (if (Header.load a.memory q).used then .ok ()
          else follow q (Header.load a.memory q) >>= a.touch) := by
      cases hu : (Header.load a.memory q).used with
      | true => exact .passes nofun
      | false =>
        refine ((hfollow q).bind fun hF => checks_touch (hbeyond q rfl hF) htop).congr ?_
        exact ⟨fun h _ => h, fun h => h rfl⟩
    refine ((checks_read (hroom q rfl) htop).bind fun _ => htail).congr ?_
    exact ⟨fun h p hp => Option.some.inj hp ▸ h, fun h => h q rfl⟩

/-- All that is looked at around the block at an offset before it is given back. -/
def look (a : Arena) (off : Nat) (h : Header) : Except Fault Unit := do
  let prev ← a.predecessor off h
  let next ← a.successor off h
  Machine.inspectNeighbors a prev next

/-- The look makes sure of the links of the block and of its free neighbors. -/
theorem checks_look (hroom : off + headerSize ≤ a.top) (htop : a.top < 2 ^ 64) :
    Checks (a.Vouched off) () (a.look off (Header.load a.memory off)) := by
  have hlook : Checks _ () (a.look off (Header.load a.memory off)) :=
    (checks_predecessor off (Header.load a.memory off)).bind fun hback =>
      (checks_successor off (Header.load a.memory off)).bind fun hahead => by
        rw [Machine.inspectNeighbors_eq]
        have hlow : ∀ q, (Header.load a.memory off).prev = some q → q + headerSize ≤ a.top :=
          fun q hq => by have := (hback.2 q hq).1; omega
        refine (checks_lookAt (fun q => checks_predecessor q _) hlow
          (fun q hq hF b hb => ?_) htop).bind fun _ =>
          checks_lookAt (fun q => checks_successor q _) (fun n hn => (hahead n hn).2)
            (fun n hn hF b hb => (hF b hb).2) htop
        have := (hF.2 b hb).1
        have := hlow q hq
        omega
  refine hlook.congr ⟨fun h => ?_, fun h => ?_⟩
  · obtain ⟨hback, hahead, hbefore, hafter⟩ := h
    exact ⟨⟨hback.1, fun q hq => ⟨hback.2 q hq, (hbefore q hq).1⟩⟩,
      fun n hn => ⟨hahead n hn, (hafter n hn).1⟩,
      fun q hq hfree => ⟨((hbefore q hq).2 hfree).1.1, fun b hb =>
        ⟨((hbefore q hq).2 hfree).1.2 b hb, ((hbefore q hq).2 hfree).2 b hb⟩⟩,
      fun n hn hfree b hb => ⟨((hafter n hn).2 hfree).1 b hb, ((hafter n hn).2 hfree).2 b hb⟩⟩
  · exact ⟨⟨h.back.1, fun q hq => (h.back.2 q hq).1⟩, fun n hn => (h.ahead n hn).1,
      fun q hq => ⟨(h.back.2 q hq).2, fun hfree => ⟨⟨(h.before q hq hfree).1,
        fun b hb => ((h.before q hq hfree).2 b hb).1⟩,
        fun b hb => ((h.before q hq hfree).2 b hb).2⟩⟩,
      fun n hn => ⟨(h.ahead n hn).2, fun hfree => ⟨fun b hb => (h.after n hn hfree b hb).1,
        fun b hb => (h.after n hn hfree b hb).2⟩⟩⟩

end Looking

end Arena

end GuardedHeap
