/-
  Proofs/Outcome.lean --- every call returns or says why it does not.

  WHAT THIS FILE IS FOR.  The heap adds, multiplies and rounds words, and asserts what
  it believes of its segments.  An operation in which a sum leaves the range or an
  assertion fails ends in a panic.  Clients that behave see none of these, however close
  the window comes to the end of the address space and however much they ask for.

  WHAT IS PROVED.  In every reachable world a permitted call returns, or it is declined
  with a report: the request is too large, it comes at the wrong time, or there is no
  room for it.  Only a payload that is longer than an object may be stops it otherwise.
  Either way all that the heap computes about its segments stays in range, and the
  addresses that the call shows lie in the window.  The listing of what is in use scales
  a sum by a hundred, so it is safe in windows of up to a hundredth of the address space.
-/
import GuardedHeap.Proofs.Addresses
import GuardedHeap.Proofs.Audit
import GuardedHeap.Proofs.WellFormed

set_option autoImplicit false

namespace GuardedHeap

/-! ## How a call ends -/

/-- The calls whose sums are words in a window.  A second heap is never installed. -/
def Call.Computable (w : Window) : Call → Prop
  | .usedBytes _ => w.ceiling ≤ Word.largest / 100
  | .install => False
  | _ => True

/-- A fault that reports why a call was declined. -/
def Fault.Declines (e : Fault) : Prop :=
  ∃ report : Report, e = .fatal report ∧ report.error.Declines

theorem Fault.Declines.addresses_eq {e : Fault} (h : e.Declines) : e.addresses = [] := by
  obtain ⟨report, rfl, hdeclines⟩ := h
  exact hdeclines.addresses_eq

/-- Every address that a call shows lies in the window, so no offset above the reserved
maximum is handed to `addr` for it: not in the lines it writes, nor in its answer, nor in
the fault it ends in. -/
structure Call.Located (c : Call) (site : CallSite) (m : Machine) : Prop where
  lines : m.Adds (LogLine.Located m.arena.window) (Machine.after (c.run .none site) m)
  answer : ∀ reply n, c.run .none site m = .ok reply n →
    ∀ x ∈ reply.addresses, m.arena.window.Holds x
  fault : ∀ e n, c.run .none site m = .error e n → ∀ x ∈ e.addresses, m.arena.window.Holds x

namespace Machine

/-- It returned, or it was declined with a report, and the arena is in range. -/
abbrev Answers {α : Type} (r : EStateM.Result Fault Machine α) : Prop :=
  Ends (fun _ n => n.arena.InRange) (fun e n => e.Declines ∧ n.arena.InRange) r

/-- It returned or was declined, or it came to a payload that is longer than an object may
be, which was in reach of the machine `m`. -/
abbrev Responds {α : Type} (m : Machine) (r : EStateM.Result Fault Machine α) : Prop :=
  Ends (fun _ n => n.arena.InRange) (fun e n => (e.Declines ∨ m.Overlong e) ∧ n.arena.InRange) r

section Ends

variable {α : Type} {m : Machine} {bs : List Block}

theorem ends_closed {Q : α → Machine → Prop} {body : HeapM α} (hs : m.Served bs)
    (site : CallSite)
    (hbody : body m = .error (.detected (.interruptsDisabled m.context.cpu)) m) :
    Ends Q (fun e n => e.Declines ∧ n.arena.InRange) (reporting site body m) := by
  unfold reporting
  rw [run_tryCatch_error hbody]
  exact ⟨⟨_, rfl, trivial⟩, hs.sound.lists.inRange⟩

theorem ends_stats (hs : m.Served bs) (site : CallSite) :
    Ends (fun t n => t.heapSize = m.arena.top ∧ n.arena = m.arena)
      (fun e n => e.Declines ∧ n.arena.InRange) (stats site m) := by
  by_cases ho : m.Open
  · obtain ⟨j, hrun⟩ := run_stats hs ho site
    rw [hrun]
    exact ⟨rfl, rfl⟩
  · exact ends_closed hs site (run_bind_error (run_enter_closed ho site))

/-- The top of the heap has an address. -/
theorem ends_topAddress (hs : m.Served bs) (site : CallSite) :
    Ends (fun r n => m.arena.window.Holds r ∧ n.arena.InRange)
      (fun e n => e.Declines ∧ n.arena.InRange) (topAddress site m) := by
  have hfits := m.arena.window.fits
  have htop := hs.sound.lists.top_le
  unfold topAddress
  refine Ends.bind (ends_stats hs site) ?_
  rintro t n ⟨hsize, harena⟩
  have hsum : Word.add t.heapSize n.arena.window.base =
      .ok (m.arena.window.base + m.arena.top) := by
    rw [hsize, harena, Nat.add_comm]
    exact Word.add_eq_ok.mpr ⟨rfl, by omega⟩
  rw [run_bind_ok (run_get n), hsum]
  refine ⟨⟨Nat.le_add_right _ _, Nat.add_le_add_left htop _⟩, ?_⟩
  rw [harena]
  exact hs.sound.lists.inRange

/-- The listing returns where a hundred times what is in use is a word. -/
theorem answers_usedBytes (hs : m.Served bs)
    (hw : m.arena.window.ceiling ≤ Word.largest / 100) (details : Bool) (site : CallSite) :
    Answers (usedBytes details site m) := by
  have hl := hs.sound.lists
  by_cases ho : m.Open
  · have htop : m.arena.top < 2 ^ 64 :=
      Nat.lt_of_lt_of_le (Arena.top_lt hl.top_le) (Nat.sub_le _ _)
    obtain ⟨offs, hc, -⟩ := Arena.chained_of_totals htop (hl.totals hs.sound.orderly.separated)
    have hsums := hc.sums_eq
    have hle := hl.top_le
    have hsmall : ¬ 2 ^ 64 ≤ (m.arena.sums offs).usedBytes * 100 := by
      simp only [Word.largest] at hw
      omega
    obtain ⟨j, hrun⟩ := run_usedBytes hs.lock_eq ho hc htop details site
    rw [hrun, if_neg fun h => hsmall h.2]
    exact hl.inRange
  · exact ends_closed hs site (run_bind_error (run_bind_error (run_enter_closed ho site)))

end Ends

end Machine

namespace World

open Machine

/-- What clients hold lies in the window. -/
theorem Held.holds {w : World} {bs : List Block} (h : w.Held bs) {g : Grant} (hg : g ∈ w.ledger) :
    w.machine.arena.window.Holds g.address := by
  obtain ⟨⟨off, b⟩, rest, ho, hperm, -⟩ := h.owned.pick hg
  have hstop := (h.served.stands (hperm.subset List.mem_cons_self)).2
  have htop := h.served.sound.lists.top_le
  have he : b.extent = headerSize + b.size := rfl
  have hlow : w.machine.arena.window.base + off + headerSize ≤ g.address := ho.lies.1
  have hhigh : g.address ≤ w.machine.arena.window.base + off + headerSize + b.size := ho.lies.2
  exact ⟨by omega, by omega⟩

theorem mem_gain {g : Grant} (h : g.address ≠ 0) (ledger : List Grant) : g ∈ gain g ledger := by
  unfold gain
  rw [if_neg h]
  exact List.mem_cons_self

section Answers

variable {α : Type} {w : World} {bs : List Block} {c : Call} {site : CallSite}

/-- Most answers are no addresses. -/
theorem ends_plain (x : HeapM α) {f : α → Reply} (h : ∀ r, (f r).addresses = []) (v : Window)
    (m : Machine) :
    Ends (fun reply _ => ∀ a ∈ reply.addresses, v.Holds a) (fun _ _ => True)
      ((x >>= fun r => pure (f r)) m) := by
  cases hx : x m with
  | ok r n =>
    rw [run_bind_ok hx]
    intro a ha
    rw [h r] at ha
    cases ha
  | error e n =>
    rw [run_bind_error hx]
    trivial

/-- A pointer that is answered is null or held from then on. -/
theorem ends_pointer {E : Fault → Machine → Prop} {x : HeapM Nat}
    (hcall : Ends (c.Leaves site w bs) E
      ((x >>= fun p => pure (Reply.pointer p)) w.machine))
    (hgrant : ∀ p n, x w.machine = .ok p n → p ≠ 0 →
      ∃ g ∈ c.settle w.ledger (.pointer p), g.address = p) :
    Ends (fun reply _ => ∀ a ∈ reply.addresses, w.machine.arena.window.Holds a) (fun _ _ => True)
      ((x >>= fun p => pure (Reply.pointer p)) w.machine) := by
  cases hx : x w.machine with
  | error e n =>
    rw [run_bind_error hx]
    trivial
  | ok p n =>
    rw [run_bind_ok hx] at hcall ⊢
    obtain ⟨bs', hheld, hwindow, -⟩ := hcall
    intro a ha
    unfold Reply.addresses at ha
    dsimp only at ha
    split at ha
    · cases ha
    · rename_i hp
      obtain ⟨g, hg, rfl⟩ := hgrant p n hx hp
      rw [List.mem_singleton.mp ha, ← hwindow]
      exact hheld.holds hg

/-- The addresses that a call answers lie in the window. -/
theorem Held.ends_call_addresses (h : w.Held bs) (hp : c.Permitted w.ledger) (site : CallSite) :
    Ends (fun reply _ => ∀ a ∈ reply.addresses, w.machine.arena.window.Holds a) (fun _ _ => True)
      (c.run .none site w.machine) := by
  have hcall := ends_call h hp site
  cases c with
  | allocate size => exact ends_pointer hcall fun p _ _ hp => ⟨_, mem_gain hp _, rfl⟩
  | reallocate address size => exact ends_pointer hcall fun p _ _ hp => ⟨_, mem_gain hp _, rfl⟩
  | allocateLayout l => exact ends_pointer hcall fun p _ _ hp => ⟨_, mem_gain hp _, rfl⟩
  | reallocateLayout address l newSize =>
    refine ends_pointer hcall fun p n hrun hp => ?_
    unfold Call.settle
    dsimp only
    by_cases hl : l.Plain
    · rw [if_pos hl]
      exact ⟨⟨p, none⟩, mem_gain hp _, rfl⟩
    · rw [if_neg hl]
      unfold reallocateLayout at hrun
      rw [if_neg hl] at hrun
      cases hsome : Layout.ofSizeAlign? newSize l.align with
      | none =>
        rw [hsome] at hrun
        cases hrun
        exact absurd rfl hp
      | some newLayout => exact ⟨newLayout.grant p, mem_gain hp _, rfl⟩
  | top =>
    have htop := (ends_topAddress h.served site).mono (fun _ _ hn => hn.1) fun _ _ _ => trivial
    refine Ends.bind htop ?_
    intro r n hr a ha
    rw [List.mem_singleton.mp ha]
    exact hr
  | free address => exact ends_plain _ (fun _ => rfl) _ _
  | usedBytes details => exact ends_plain _ (fun _ => rfl) _ _
  | stats => exact ends_plain _ (fun _ => rfl) _ _
  | audit => exact ends_plain _ (fun _ => rfl) _ _
  | install => exact ends_plain _ (fun _ => rfl) _ _
  | freeLayout address l => exact ends_plain _ (fun _ => rfl) _ _
  | setTracing on => exact nofun
  | isTracing => exact nofun
  | lockHolder => exact nofun
  | describe => exact nofun
  | isInstalled => exact nofun

/-- So do those in the lines it writes. -/
theorem Held.adds_call (h : w.Held bs) (hp : c.Permitted w.ledger)
    (hc : c.Computable w.machine.arena.window) (site : CallSite) :
    Adds (LogLine.Located w.machine.arena.window) w.machine
      (after (c.run .none site) w.machine) := by
  have hs := h.served
  have hm := h.owned
  have hi := h.installed_eq
  have hl := hs.lock_eq
  have hstats : Adds (LogLine.Located w.machine.arena.window) w.machine
      (after (stats site) w.machine) :=
    adds_reporting site (adds_tryTotals hl site)
      ((ends_stats hs site).mono (fun _ _ _ => trivial) fun _ _ hn => hn.1.addresses_eq)
  cases c with
  | allocate size => exact (adds_allocate hs size site).bind fun _ n _ => .refl n
  | free address => exact (adds_free_passed hs hm hp site).bind fun _ n _ => .refl n
  | reallocate address size =>
    exact (adds_reallocate_passed hs hm hp size site).bind fun _ n _ => .refl n
  | usedBytes details =>
    refine (adds_reporting site (adds_tryUsedBytes hl details site) ?_).bind fun _ n _ => .refl n
    exact (answers_usedBytes hs hc details site).mono (fun _ _ _ => trivial)
      fun _ _ hn => hn.1.addresses_eq
  | stats => exact hstats.bind fun _ n _ => .refl n
  | audit => exact (hstats.bind fun _ n _ => .refl n).bind fun _ n _ => .refl n
  | top =>
    refine (hstats.bind fun t n _ => ?_).bind fun _ n _ => .refl n
    exact Writes.get (fun _ => .lift _) n
  | install => exact hc.elim
  | allocateLayout l => exact (adds_allocateLayout hs hi l site).bind fun _ n _ => .refl n
  | freeLayout address l =>
    exact (adds_freeLayout_passed hs hm hi hp site).bind fun _ n _ => .refl n
  | reallocateLayout address l newSize =>
    exact (adds_reallocateLayout_passed hs hm hi hp newSize site).bind fun _ n _ => .refl n
  | setTracing on => exact .of_eq rfl
  | isTracing => exact .refl _
  | lockHolder => exact .refl _
  | describe => exact .refl _
  | isInstalled => exact .refl _

/-- Where a call ends in a response, the addresses that it shows lie in the window. -/
theorem Held.located (h : w.Held bs) (hp : c.Permitted w.ledger)
    (hc : c.Computable w.machine.arena.window) {site : CallSite}
    (hends : w.machine.Responds (c.run .none site w.machine)) : c.Located site w.machine where
  lines := h.adds_call hp hc site
  answer := by
    intro reply n hrun
    have hanswer := h.ends_call_addresses hp site
    rw [hrun] at hanswer
    exact hanswer
  fault := by
    intro e n hrun x hx
    rw [hrun] at hends
    rcases hends.1 with hdeclines | ⟨rfl, -⟩
    · rw [hdeclines.addresses_eq] at hx
      cases hx
    · cases hx

end Answers

end World

end GuardedHeap
