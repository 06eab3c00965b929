/-
  Proofs/Attribution.lean --- whom headers name.

  WHAT THIS FILE IS FOR.  The header of a block names who asked for it, and the header
  of free memory where it was freed; reports of misuse and the listing of what is in use
  repeat that.  A `Run` leads to a world and keeps the calls that returned on the way,
  the latest one first, so it can be asked whether a header tells the truth.

  WHAT IS PROVED.  After every run a live block remembers the call that created it: its
  site and context if calls were traced then, and nothing otherwise.  A free segment that
  remembers a site was freed there by the latest call that released a block in its reach.
  That is its extent, but the last segment reaches on to where the heap ended before that
  call, because the end is trimmed after the site was recorded.  The listing shows exactly
  the traced blocks.
-/
import GuardedHeap.Proofs.Audit
import GuardedHeap.Proofs.Isolation

set_option autoImplicit false

namespace GuardedHeap

/-! ## Calls that returned -/

/-- A used segment stands at an offset. -/
def Arena.Live (a : Arena) (off : Nat) : Prop :=
  ∃ s ∈ a.walk.segments, s.offset = off ∧ s.header.used = true

/-- A call from a site that returned, with the machine it found and the one it left. -/
structure Entry where
  call : Call
  site : CallSite
  before : Machine
  after : Machine

namespace Entry

/-- What a new block remembers of the call. -/
def stamp (e : Entry) : Record := e.before.stamp e.site

/-- The call created a block at an offset. -/
def Creates (e : Entry) (off : Nat) : Prop := ¬ e.before.arena.Live off ∧ e.after.arena.Live off

/-- The block at an offset stayed there. -/
def Keeps (e : Entry) (off : Nat) : Prop := e.before.arena.Live off ∧ e.after.arena.Live off

/-- The call released a block. -/
def Releases (e : Entry) (t : Segment) : Prop :=
  t ∈ e.before.arena.walk.segments ∧ t.header.used = true ∧ ¬ e.after.arena.Live t.offset

/-- The call released a block between two offsets. -/
def FreesIn (e : Entry) (start stop : Nat) : Prop :=
  ∃ t, e.Releases t ∧ start ≤ t.offset ∧ t.stop ≤ stop

/-- Where a segment that stops at `stop` stopped before the end of the heap was trimmed. -/
def reach (e : Entry) (stop : Nat) : Nat :=
  if stop = e.after.arena.top then e.before.arena.top else stop

/-- The call released a block in the reach of a segment. -/
def Reclaims (e : Entry) (s : Segment) : Prop := e.FreesIn s.offset (e.reach s.stop)

/-- The call created blocks only to lend them, and released only what it named. -/
structure Due (e : Entry) : Prop where
  lends : ∀ off, e.Creates off → e.call.Lends
  names : ∀ t, e.Releases t → e.call.Names e.before.arena.window t.offset t.header.size

end Entry

/-- Some call did `p`, and all that came after it did `q`. -/
inductive Since (p q : Entry → Prop) : List Entry → Entry → Prop
  | now {e : Entry} {history : List Entry} (h : p e) : Since p q (e :: history) e
  | later {d e : Entry} {history : List Entry} (h : q d) (hs : Since p q history e) :
    Since p q (d :: history) e

theorem Since.mem {p q : Entry → Prop} {history : List Entry} {e : Entry}
    (h : Since p q history e) : e ∈ history := by
  induction h with
  | now h => exact List.mem_cons_self
  | later h hs ih => exact List.mem_cons_of_mem _ ih

/-- What stands in an arena was made by the calls of a history. -/
structure Arena.Attributed (a : Arena) (history : List Entry) : Prop where
  /-- a live block remembers the call that created it -/
  used : ∀ s ∈ a.walk.segments, s.header.used = true →
    ∃ e, Since (·.Creates s.offset) (·.Keeps s.offset) history e ∧ s.header.record = e.stamp
  /-- a free segment that remembers a site was freed there by the latest call that released
  a block in its reach -/
  free : ∀ s ∈ a.walk.segments, s.header.used = false → ∀ site ∈ s.header.freedAt,
    ∃ e, Since (·.Reclaims s) (¬ ·.Reclaims s) history e ∧ e.site = site

/-! ## Runs -/

/-- Well-behaved clients lead to a world, with these calls on the way. -/
inductive World.Run : List Entry → World → Prop
  | start {bare m : Machine} (hbare : bare.Bare) (hrun : Machine.install bare = .ok () m) :
    Run [] ⟨m, []⟩
  | call {history : List Entry} {w : World} {c : Call} {site : CallSite} {reply : Reply}
      {m : Machine} (h : Run history w) (permitted : c.Permitted w.ledger)
      (run : c.run .none site w.machine = .ok reply m) :
    Run (⟨c, site, w.machine, m⟩ :: history) ⟨m, c.settle w.ledger reply⟩
  /-- a permitted call is declined before it maps anything -/
  | declined {history : List Entry} {w : World} {c : Call} {site : CallSite} {e : Fault}
      {m : Machine} (h : Run history w) (permitted : c.Permitted w.ledger)
      (run : c.run .none site w.machine = .error e m) (unmoved : m.arena = w.machine.arena)
      (unmapped : m.platform.pages = w.machine.platform.pages) :
    Run history ⟨m, w.ledger⟩
  | write {history : List Entry} {w : World} {g : Grant} {off : Nat} (h : Run history w)
      (held : g ∈ w.ledger) (covered : g.Covers w.machine.arena off) (b : UInt8) :
    Run history ⟨w.machine.poke off b, w.ledger⟩
  | blank {history : List Entry} {w : World} {s : Segment} {d : Nat} (h : Run history w)
      (stands : s ∈ w.machine.arena.walk.segments) (unset : s.header.Blank d) (b : UInt8) :
    Run history ⟨w.machine.poke (s.offset + d) b, w.ledger⟩
  | switch {history : List Entry} {w : World} (h : Run history w) (context : Context) :
    Run history ⟨{ w.machine with context := context }, w.ledger⟩
  | supply {history : List Entry} {w : World} (h : Run history w) (frames : List Nat) :
    Run history ⟨{ w.machine with platform := { w.machine.platform with frames := frames } },
      w.ledger⟩

/-- Every reachable world has a run that leads to it. -/
theorem World.Reachable.exists_run {w : World} (h : w.Reachable) : ∃ history, Run history w := by
  induction h with
  | start hbare hrun => exact ⟨_, .start hbare hrun⟩
  | step _ hs ih =>
    obtain ⟨history, hrun⟩ := ih
    cases hs with
    | call permitted run => exact ⟨_, hrun.call permitted run⟩
    | write held covered b => exact ⟨_, hrun.write held covered b⟩
    | blank stands unset b => exact ⟨_, hrun.blank stands unset b⟩
    | switch context => exact ⟨_, hrun.switch context⟩
    | supply frames => exact ⟨_, hrun.supply frames⟩

/-! ## Rows as arenas remember them -/

/-- A segment was there before, and remembered the same. -/
def Arena.Recalls (a : Arena) (s : Segment) : Prop :=
  ∃ r ∈ a.walk.segments, r.offset = s.offset ∧ r.header.used = s.header.used ∧
    r.header.record = s.header.record ∧ (s.header.used = false → r.stop = s.stop)

section Rows

variable {a : Arena} {bs : List Block} {off : Nat} {s : Segment}

/-- The live blocks of a row are where the arena has used segments. -/
theorem Arena.Lists.live_iff (h : a.Lists bs) : a.Live off ↔ ∃ b, (off, b) ∈ live 0 bs := by
  unfold Live
  rw [h.walk]
  constructor
  · rintro ⟨s, hs, rfl, hu⟩
    obtain ⟨b, -, -, hb, -⟩ := exists_live_of_used hs hu
    exact ⟨b, hb⟩
  · rintro ⟨b, hb⟩
    obtain ⟨t, ht, hoff, prev, next, hheader⟩ := exists_segment_of_live hb
    refine ⟨t, ht, hoff, ?_⟩
    rw [hheader]
    exact (mem_live_iff.mp hb).1

theorem exists_marked {site : CallSite} (hs : s ∈ segments none 0 bs)
    (hu : s.header.used = false) (hf : s.header.freedAt = some site) :
    ∃ b prev next, Marked 0 bs (s.offset, b) ∧ s.header = b.header prev next := by
  obtain ⟨pre, b, post, hbs, rfl⟩ := mem_segments_iff.mp hs
  refine ⟨b, _, _, ⟨mem_places_iff.mpr ⟨pre, post, hbs, rfl⟩, hu, ?_⟩, rfl⟩
  have hfreed : b.freedAt = some site := hf
  rw [hfreed]
  exact Option.some_ne_none site

theorem Arena.Lists.recalls_live (h : a.Lists bs) {b : Block} (hb : (s.offset, b) ∈ live 0 bs)
    (hu : s.header.used = true) (hr : s.header.record = b.record) : a.Recalls s := by
  obtain ⟨t, ht, hoff, prev, next, hheader⟩ := exists_segment_of_live hb
  refine ⟨t, by rwa [h.walk], hoff, ?_, ?_, fun hfree => ?_⟩
  · rw [hheader, hu]
    exact (mem_live_iff.mp hb).1
  · rw [hheader, hr]
    rfl
  · rw [hu] at hfree
    cases hfree

/-- A mark of the row is recalled. -/
theorem Arena.Lists.recalls_marked (h : a.Lists bs) {b : Block} {prev next : Option Nat}
    (hb : Marked 0 bs (s.offset, b)) (hs : s.header = b.header prev next) : a.Recalls s := by
  obtain ⟨pre, post, hbs, hoff⟩ := mem_places_iff.mp hb.1
  rw [Nat.zero_add] at hoff
  refine ⟨_, h.mem_walk_iff.mpr ⟨pre, b, post, hbs, rfl⟩, hoff.symm, ?_, ?_, fun _ => ?_⟩
  · rw [hs]
    rfl
  · rw [hs]
    rfl
  · unfold Segment.stop
    rw [hs, hoff]
    rfl

end Rows

/-! ## One call -/

/-- What a call made of what is remembered in an arena. -/
structure Entry.Faithful (e : Entry) : Prop where
  used : ∀ s ∈ e.after.arena.walk.segments, s.header.used = true →
    e.before.arena.Recalls s ∨ (¬ e.before.arena.Live s.offset ∧ s.header.record = e.stamp)
  free : ∀ s ∈ e.after.arena.walk.segments, s.header.used = false → ∀ site ∈ s.header.freedAt,
    (e.before.arena.Recalls s ∧ ¬ e.Reclaims s) ∨ (e.Reclaims s ∧ e.site = site)

namespace Entry

variable {e : Entry} {bs bs' : List Block}

theorem exists_dropped (h : e.before.arena.Lists bs) (h' : e.after.arena.Lists bs') {t : Segment}
    (ht : e.Releases t) :
    ∃ b prev next, Dropped bs bs' (t.offset, b) ∧ t.header = b.header prev next := by
  obtain ⟨hmem, hu, hgone⟩ := ht
  rw [h.walk] at hmem
  obtain ⟨b, prev, next, hb, hheader⟩ := exists_live_of_used hmem hu
  refine ⟨b, prev, next, ⟨hb, fun y hy hoff => hgone (h'.live_iff.mpr ⟨y.2, ?_⟩)⟩, hheader⟩
  rw [show t.offset = y.1 from hoff.symm]
  exact hy

/-- A call released the blocks it dropped. -/
theorem exists_releases (h : e.before.arena.Lists bs) (h' : e.after.arena.Lists bs')
    {x : Nat × Block} (hx : Dropped bs bs' x) :
    ∃ t, e.Releases t ∧ t.offset = x.1 ∧ t.stop = x.1 + x.2.extent := by
  obtain ⟨hlive, hgone⟩ := hx
  obtain ⟨t, ht, hoff, prev, next, hheader⟩ := exists_segment_of_live hlive
  refine ⟨t, ⟨h.walk ▸ ht, ?_, fun hl => ?_⟩, hoff, ?_⟩
  · rw [hheader]
    exact (mem_live_iff.mp hlive).1
  · obtain ⟨b, hb⟩ := h'.live_iff.mp hl
    exact hgone _ hb hoff
  · unfold Segment.stop
    rw [hheader, hoff]
    exact Nat.add_assoc _ _ _

/-- What a segment reclaims are the dropped blocks it reaches. -/
theorem reclaims_iff (h : e.before.arena.Lists bs) (h' : e.after.arena.Lists bs') {s : Segment}
    {b : Block} {prev next : Option Nat} (hs : s.header = b.header prev next) :
    e.Reclaims s ↔ ∃ x, Dropped bs bs' x ∧ Reaches (span bs') (s.offset, b) x := by
  have hstop : s.stop = s.offset + b.extent := by
    unfold Segment.stop
    rw [hs]
    exact Nat.add_assoc _ _ _
  unfold Reclaims FreesIn reach Reaches
  rw [hstop, ← h'.top_eq]
  constructor
  · rintro ⟨t, ht, hstart, hle⟩
    obtain ⟨c, front, back, hc, hheader⟩ := exists_dropped h h' ht
    refine ⟨_, hc, hstart, ?_⟩
    by_cases hlast : s.offset + b.extent = e.after.arena.top
    · exact Or.inr hlast
    · rw [if_neg hlast] at hle
      unfold Segment.stop at hle
      rw [hheader, Nat.add_assoc] at hle
      exact Or.inl hle
  · rintro ⟨x, hx, hstart, hreach⟩
    obtain ⟨t, ht, hoff, htstop⟩ := exists_releases h h' hx
    refine ⟨t, ht, hoff ▸ hstart, ?_⟩
    by_cases hlast : s.offset + b.extent = e.after.arena.top
    · obtain ⟨-, pre, post, rfl, hplace⟩ := mem_live_iff.mp hx.1
      have htop := h.stop_le
      rw [if_pos hlast, htstop, hplace]
      omega
    · rw [if_neg hlast, htstop]
      exact hreach.resolve_right hlast

/-- A call that was credited is faithful. -/
theorem faithful_of_credited (h : e.before.arena.Lists bs) (h' : e.after.arena.Lists bs')
    (hc : Credited e.stamp e.site bs bs') : e.Faithful := by
  refine ⟨fun s hs hu => ?_, fun s hs hu site hf => ?_⟩
  · rw [h'.walk] at hs
    obtain ⟨b, prev, next, hb, hheader⟩ := exists_live_of_used hs hu
    have hrecord : s.header.record = b.record := by
      rw [hheader]
      exact b.record_header prev next
    rcases hc.stamped _ hb with ⟨⟨place, c⟩, hx, rfl, hsame⟩ | ⟨hnew, hstamp⟩
    · exact Or.inl (h.recalls_live hx hu (hrecord.trans hsame))
    · refine Or.inr ⟨fun hlive => ?_, hrecord.trans hstamp⟩
      obtain ⟨c, hx⟩ := h.live_iff.mp hlive
      exact hnew _ hx rfl
  · rw [h'.walk] at hs
    obtain ⟨b, prev, next, hb, hheader⟩ := exists_marked hs hu hf
    have hfreed : b.freedAt = some site := by
      rw [hheader] at hf
      exact hf
    rw [reclaims_iff h h' hheader]
    rcases hc.freed _ hb with ⟨hold, hnone⟩ | ⟨hsite, x, hx, hreach⟩
    · refine Or.inl ⟨h.recalls_marked hold hheader, ?_⟩
      rintro ⟨x, hx, hreach⟩
      exact hnone x hx hreach
    · exact Or.inr ⟨⟨x, hx, hreach⟩, Option.some.inj (hsite.symm.trans hfreed)⟩

end Entry

/-- Every permitted call that returns is faithful and due. -/
theorem Call.Leaves.entry {w : World} {bs : List Block} (h : w.Held bs) {c : Call}
    {site : CallSite} {reply : Reply} {m : Machine} (hl : c.Leaves site w bs reply m) :
    Entry.Faithful ⟨c, site, w.machine, m⟩ ∧ Entry.Due ⟨c, site, w.machine, m⟩ := by
  obtain ⟨bs', hheld, -, hkept, hcredited, hlends⟩ := hl
  have hold := h.served.sound.lists
  have hnew : m.arena.Lists bs' := hheld.served.sound.lists
  refine ⟨Entry.faithful_of_credited hold hnew hcredited, ?_, ?_⟩
  · rintro off ⟨hfree, hlive⟩
    obtain ⟨b, hb⟩ := hnew.live_iff.mp hlive
    exact (hlends _ hb).resolve_left fun hmem => hfree (hold.live_iff.mpr ⟨b, hmem⟩)
  · intro t ht
    obtain ⟨b, prev, next, hb, hheader⟩ := Entry.exists_dropped hold hnew ht
    by_contra hn
    rw [hheader] at hn
    exact hb.2 _ (hkept _ hb.1 hn) rfl

/-! ## What steps leave of what was recorded -/

namespace Arena.Attributed

variable {a a' : Arena} {history : List Entry}

/-- What is remembered the same has the same origin. -/
theorem of_recalls (h : a.Attributed history)
    (hused : ∀ s ∈ a'.walk.segments, s.header.used = true → a.Recalls s)
    (hfree : ∀ s ∈ a'.walk.segments, s.header.used = false → s.header.freedAt ≠ none →
      a.Recalls s) : a'.Attributed history := by
  refine ⟨fun s hs hu => ?_, fun s hs hu site hf => ?_⟩
  · obtain ⟨r, hr, hoff, hru, hrecord, -⟩ := hused s hs hu
    obtain ⟨e, hsince, hstamp⟩ := h.used r hr (hru.trans hu)
    rw [hoff] at hsince
    exact ⟨e, hsince, hrecord.symm.trans hstamp⟩
  · obtain ⟨r, hr, hoff, hru, hrecord, hstop⟩ := hfree s hs hu (by rw [hf]; exact nofun)
    have hfreed : r.header.freedAt = s.header.freedAt := congrArg Record.freedAt hrecord
    obtain ⟨e, hsince, hsite⟩ := h.free r hr (hru.trans hu) site (hfreed.trans hf)
    unfold Entry.Reclaims at hsince ⊢
    rw [hoff, hstop hu] at hsince
    exact ⟨e, hsince, hsite⟩

/-- A faithful call is added to what happened. -/
theorem call {e : Entry} (h : e.before.arena.Attributed history) (hf : e.Faithful) :
    e.after.arena.Attributed (e :: history) := by
  refine ⟨fun s hs hu => ?_, fun s hs hu site hsite => ?_⟩
  · have hlive : e.after.arena.Live s.offset := ⟨s, hs, rfl, hu⟩
    rcases hf.used s hs hu with ⟨r, hr, hoff, hru, hrecord, -⟩ | ⟨hnew, hstamp⟩
    · obtain ⟨d, hsince, hstamp⟩ := h.used r hr (hru.trans hu)
      rw [hoff] at hsince
      exact ⟨d, .later ⟨⟨r, hr, hoff, hru.trans hu⟩, hlive⟩ hsince, hrecord.symm.trans hstamp⟩
    · exact ⟨e, .now ⟨hnew, hlive⟩, hstamp⟩
  · rcases hf.free s hs hu site hsite with ⟨⟨r, hr, hoff, hru, hrecord, hstop⟩, hnone⟩ | ⟨hin, heq⟩
    · have hfreed : r.header.freedAt = s.header.freedAt := congrArg Record.freedAt hrecord
      obtain ⟨d, hsince, heq⟩ := h.free r hr (hru.trans hu) site (hfreed.trans hsite)
      unfold Entry.Reclaims at hsince hnone ⊢
      rw [hoff, hstop hu] at hsince
      exact ⟨d, .later hnone hsince, heq⟩
    · exact ⟨e, .now hin, heq⟩

/-- Where nothing that is remembered changes, nothing is added. -/
theorem unaltered (h : a.Attributed history) {bs bs' : List Block} (hl : a.Lists bs)
    (hl' : a'.Lists bs') (hsame : Unaltered bs bs') : a'.Attributed history := by
  refine h.of_recalls (fun s hs hu => ?_) fun s hs hu hne => ?_
  · rw [hl'.walk] at hs
    obtain ⟨b, prev, next, hb, hheader⟩ := exists_live_of_used hs hu
    obtain ⟨⟨place, c⟩, hx, rfl, hrecord⟩ := hsame.stamped _ hb
    refine hl.recalls_live hx hu ?_
    rw [hheader, Block.record_header]
    exact hrecord
  · rw [hl'.walk] at hs
    obtain ⟨site, hf⟩ := Option.ne_none_iff_exists'.mp hne
    obtain ⟨b, prev, next, hb, hheader⟩ := exists_marked hs hu hf
    exact hl.recalls_marked (hsame.marked _ hb) hheader

end Arena.Attributed

/-- A heap that was just installed remembers nothing. -/
theorem attributed_start {a : Arena} {size : Nat} (h : a.Lists [Block.fresh size]) :
    a.Attributed [] := by
  have hfresh : ∀ s ∈ a.walk.segments, s.header.used = false ∧ s.header.freedAt = none := by
    intro s hs
    obtain ⟨pre, b, post, hrow, rfl⟩ := h.mem_walk_iff.mp hs
    have hb : b ∈ [Block.fresh size] := hrow ▸ List.mem_append_right _ List.mem_cons_self
    rw [List.mem_singleton.mp hb]
    exact ⟨rfl, rfl⟩
  refine ⟨fun s hs hu => ?_, fun s hs _ site hf => ?_⟩
  · rw [(hfresh s hs).1] at hu
    cases hu
  · rw [(hfresh s hs).2] at hf
    cases hf

/-! ## The listing between calls -/

namespace Machine

/-- The listing called from a site shows every traced block and the sums, but only to a
context that may use the heap. -/
structure Discloses (m : Machine) (site : CallSite) : Prop where
  opened : m.Open → usedBytes true site m =
    .ok (payloadIn true m.arena.walk.segments)
      (m.written (m.listing true m.arena.walk.segments ++ [summary m.arena.walk.segments]))
  closed : ¬ m.Open → usedBytes true site m =
    .error (.fatal ⟨.interruptsDisabled m.context.cpu, ⟨site, m.context.id, m.context.cpu⟩⟩)
      (m.written [.failing (.interruptsDisabled m.context.cpu)])

/-- A heap between calls does so, where a hundred times its size is a word. -/
theorem Served.discloses {m : Machine} {bs : List Block} (h : m.Served bs)
    (hw : m.arena.window.ceiling ≤ Word.largest / 100) (site : CallSite) : m.Discloses site := by
  have hl := h.sound.lists
  have hle := hl.top_le
  have htop : m.arena.top < 2 ^ 64 := Nat.lt_of_lt_of_le (Arena.top_lt hle) (Nat.sub_le _ _)
  refine ⟨fun ho => ?_, fun ho => ?_⟩
  · obtain ⟨offs, hc, -⟩ := Arena.chained_of_totals htop (hl.totals h.sound.orderly.separated)
    have hwalk := hc.walk htop
    have hsums := hc.sums_eq
    have hused : (m.arena.sums offs).usedBytes = payloadIn true (offs.map m.arena.segmentAt) := rfl
    have hfree : (m.arena.sums offs).freeBytes = payloadIn false (offs.map m.arena.segmentAt) := rfl
    have hsmall : payloadIn true (offs.map m.arena.segmentAt) * 100 < 2 ^ 64 := by
      simp only [Word.largest] at hw
      omega
    rw [run_usedBytes_detailed h.lock_eq ho hwalk (by omega) site,
      if_neg (Nat.not_le.mpr hsmall), hwalk]
  · have hbody : tryUsedBytes true site m = .error (.detected (.interruptsDisabled _)) m :=
      run_bind_error (run_bind_error (run_enter_closed ho site))
    unfold usedBytes reporting
    rw [run_tryCatch_error hbody]
    dsimp only
    rw [run_bind_ok (run_log_written _ m)]
    rfl

end Machine

/-! ## What runs leave -/

namespace World

open Machine

variable {history : List Entry} {w : World}

/-- A call that was declined before it mapped anything leaves a state between calls. -/
theorem Held.declined {bs : List Block} (h : w.Held bs) {c : Call} {site : CallSite} {e : Fault}
    {m : Machine} (permitted : c.Permitted w.ledger) (run : c.run .none site w.machine = .error e m)
    (unmoved : m.arena = w.machine.arena)
    (unmapped : m.platform.pages = w.machine.platform.pages) : Held ⟨m, w.ledger⟩ bs := by
  have hcall := ends_call h permitted site
  rw [run] at hcall
  have hstalled : w.machine.Stalled bs m := hcall
  obtain ⟨hlists, hbacked, horder⟩ := h.served.sound
  have hmaps : m.platform.Maps (pagesBelow w.machine.arena.top) := by
    unfold Platform.Maps
    rw [unmapped]
    exact hbacked.maps
  have hsound : w.machine.arena.Sound m.platform bs :=
    ⟨hlists, ⟨hbacked.floor_le, hbacked.le_ceiling, hmaps, hbacked.slack⟩, horder⟩
  refine ⟨⟨unmoved ▸ hsound, hstalled.around.lock_eq.trans h.served.lock_eq, h.served.filled⟩,
    hstalled.around.installed_eq.trans h.installed_eq, ?_⟩
  show Matches m.arena.window.base w.ledger (live 0 bs)
  rw [unmoved]
  exact h.owned

/-- Every run leads to a state between calls. -/
theorem Run.held (h : w.Run history) : ∃ bs, w.Held bs := by
  induction h with
  | start hbare hrun => exact ⟨_, held_start hbare hrun⟩
  | call _ permitted run ih =>
    obtain ⟨bs, hheld⟩ := ih
    exact hheld.step (.call permitted run)
  | declined _ permitted run unmoved unmapped ih =>
    obtain ⟨bs, hheld⟩ := ih
    exact ⟨bs, hheld.declined permitted run unmoved unmapped⟩
  | write _ held covered b ih =>
    obtain ⟨bs, hheld⟩ := ih
    exact hheld.step (.write held covered b)
  | blank _ stands unset b ih =>
    obtain ⟨bs, hheld⟩ := ih
    exact ⟨bs, hheld.blank stands unset b⟩
  | switch _ context ih =>
    obtain ⟨bs, hheld⟩ := ih
    exact ⟨bs, hheld.switch context⟩
  | supply _ frames ih =>
    obtain ⟨bs, hheld⟩ := ih
    exact ⟨bs, hheld.supply frames⟩

/-- Every call of a run that returned is faithful and due. -/
theorem Run.call_entry (h : w.Run history) {c : Call} {site : CallSite} {reply : Reply}
    {m : Machine} (permitted : c.Permitted w.ledger)
    (run : c.run .none site w.machine = .ok reply m) :
    Entry.Faithful ⟨c, site, w.machine, m⟩ ∧ Entry.Due ⟨c, site, w.machine, m⟩ := by
  obtain ⟨bs, hheld⟩ := h.held
  have hcall := ends_call hheld permitted site
  rw [run] at hcall
  exact Call.Leaves.entry hheld hcall

theorem Run.due (h : w.Run history) : ∀ e ∈ history, e.Due := by
  induction h with
  | start hbare hrun => exact fun _ he => nomatch he
  | call h permitted run ih => exact List.forall_mem_cons.mpr ⟨(h.call_entry permitted run).2, ih⟩
  | declined _ _ _ _ _ ih => exact ih
  | write _ _ _ _ ih => exact ih
  | blank _ _ _ _ ih => exact ih
  | switch _ _ ih => exact ih
  | supply _ _ ih => exact ih

/-- What stands in the arena after a run was made by its calls. -/
theorem Run.attributed (h : w.Run history) : w.machine.arena.Attributed history := by
  induction h with
  | start hbare hrun => exact attributed_start (held_start hbare hrun).served.sound.lists
  | call h permitted run ih => exact ih.call (h.call_entry permitted run).1
  | declined _ _ _ unmoved _ ih => exact unmoved ▸ ih
  | write h held covered b ih =>
    obtain ⟨bs, hheld⟩ := h.held
    obtain ⟨-, -, bs', -, -, -, -, hsame, hheld'⟩ := hheld.write held covered b
    exact ih.unaltered hheld.served.sound.lists hheld'.served.sound.lists hsame
  | blank h stands unset b ih =>
    obtain ⟨bs, hheld⟩ := h.held
    exact ih.unaltered hheld.served.sound.lists (hheld.blank stands unset b).served.sound.lists
      (.refl bs)
  | switch _ _ ih => exact ih
  | supply _ _ ih => exact ih

/-- Whatever well-behaved clients did, headers tell the truth: live blocks remember the
calls that created them, marks the latest release in their reach, and the listing shows
one line for every traced block, in the order of addresses, and the sums. -/
theorem Run.truthful (h : w.Run history) :
    w.machine.arena.walk.failure = none ∧
      (w.machine.arena.walk.segments.Pairwise fun s t => s.stop ≤ t.offset) ∧
      w.machine.arena.Attributed history ∧ (∀ e ∈ history, e.Due) ∧
      (w.machine.arena.window.ceiling ≤ Word.largest / 100 →
        ∀ site, w.machine.Discloses site) := by
  obtain ⟨bs, hheld⟩ := h.held
  have hwalk := hheld.served.sound.lists.walk
  refine ⟨by rw [hwalk], ?_, h.attributed, h.due, hheld.served.discloses⟩
  rw [hwalk]
  exact pairwise_segments none 0 bs

/-! ### A block that moved when nothing was traced -/

theorem run_smallNew : smallNew.Run [] :=
  .start (bare_boot smallWindow 2 _ false 0xaa)
    (run_of_returns (r := ()) (by decide +kernel))

def tracedStart : Machine := { smallNew.machine with tracing := true }

def tracedFirst : Machine := after (allocate .none 100 ⟨1⟩) tracedStart

def tracedSecond : Machine := after (allocate .none 16 ⟨2⟩) tracedFirst

def untracedSecond : Machine := { tracedSecond with tracing := false }

/-- The small heap with a traced block behind the place of one that was moved. -/
def movedWorld : World :=
  ⟨after (reallocate .none 0x10000040 200 ⟨3⟩) untracedSecond,
    [⟨0x10000140, none⟩, ⟨0x100000f0, none⟩]⟩

/-- How it came about, the latest call first. -/
def movedHistory : List Entry :=
  [⟨.reallocate 0x10000040 200, ⟨3⟩, untracedSecond, movedWorld.machine⟩,
    ⟨.setTracing false, ⟨0⟩, tracedSecond, untracedSecond⟩,
    ⟨.allocate 16, ⟨2⟩, tracedFirst, tracedSecond⟩,
    ⟨.allocate 100, ⟨1⟩, tracedStart, tracedFirst⟩,
    ⟨.setTracing true, ⟨0⟩, smallNew.machine, tracedStart⟩]

theorem run_movedWorld : movedWorld.Run movedHistory := by
  have hfirst : allocate .none 100 ⟨1⟩ tracedStart = .ok 0x10000040 tracedFirst :=
    run_of_returns (by decide +kernel)
  have hsecond : allocate .none 16 ⟨2⟩ tracedFirst = .ok 0x100000f0 tracedSecond :=
    run_of_returns (by decide +kernel)
  have hmoved : reallocate .none 0x10000040 200 ⟨3⟩ untracedSecond =
      .ok 0x10000140 movedWorld.machine := run_of_returns (by decide +kernel)
  have hon := @Run.call _ _ (.setTracing true) ⟨0⟩ _ tracedStart run_smallNew trivial rfl
  have hone := hon.call (c := .allocate 100) trivial (run_bind_ok hfirst)
  have htwo := hone.call (c := .allocate 16) trivial (run_bind_ok hsecond)
  have hoff := @Run.call _ _ (.setTracing false) ⟨0⟩ _ untracedSecond htwo trivial rfl
  exact hoff.call (c := .reallocate 0x10000040 200) (Or.inr (by decide +kernel))
    (run_bind_ok hmoved)

/-- The listing shows the one block that was traced and stayed, and the place of the other
was freed where it was moved. -/
theorem truthful_movedWorld :
    (∃ s ∈ movedWorld.machine.arena.walk.segments, s.offset = 176 ∧
      s.header.record = ⟨some ⟨2⟩, some ⟨1⟩, none⟩ ∧
      ∃ e, Since (·.Creates 176) (·.Keeps 176) movedHistory e ∧ s.header.record = e.stamp) ∧
    (∃ s ∈ movedWorld.machine.arena.walk.segments, s.offset = 0 ∧ s.header.freedAt = some ⟨3⟩ ∧
      ∃ e, Since (·.Reclaims s) (¬ ·.Reclaims s) movedHistory e ∧ e.site = ⟨3⟩) ∧
    usedBytes true ⟨4⟩ movedWorld.machine = .ok 224 (movedWorld.machine.written
      [.locking 0, .usageHeading, .usageBlock 16 ⟨1⟩ ⟨2⟩, .unlocking 0, .usageTotal 224 2 5]) := by
  obtain ⟨-, -, ⟨hused, hfree⟩, -, hlisting⟩ := Run.truthful run_movedWorld
  have hfacts : movedWorld.machine.arena.window.ceiling = 16384 ∧
      movedWorld.machine.context = ⟨⟨1⟩, 0, true, true⟩ ∧
      movedWorld.machine.arena.walk.segments =
        [⟨0, ⟨false, 112, none, some 176, some ⟨1⟩, some ⟨1⟩, some ⟨3⟩⟩⟩,
          ⟨176, ⟨true, 16, some 0, some 256, some ⟨2⟩, some ⟨1⟩, none⟩⟩,
          ⟨256, ⟨true, 208, some 176, some 528, none, none, none⟩⟩,
          ⟨528, ⟨false, 3504, some 256, none, none, none, none⟩⟩] := by decide +kernel
  obtain ⟨hceiling, hcontext, hwalk⟩ := hfacts
  have hopen : movedWorld.machine.Open := by
    unfold Open
    rw [hcontext]
    exact fun _ => rfl
  have hlines := (hlisting (by rw [hceiling]; decide) ⟨4⟩).opened hopen
  have hlist : movedWorld.machine.listing true movedWorld.machine.arena.walk.segments =
      [.locking 0, .usageHeading, .usageBlock 16 ⟨1⟩ ⟨2⟩, .unlocking 0] := by
    unfold listing onceBooted
    rw [hcontext, hwalk]
    rfl
  rw [hlist] at hlines
  rw [hwalk] at hused hfree hlines ⊢
  have hsecond := hused _ (List.mem_cons_of_mem _ List.mem_cons_self) rfl
  have hplace := hfree _ List.mem_cons_self rfl ⟨3⟩ rfl
  exact ⟨⟨_, List.mem_cons_of_mem _ List.mem_cons_self, rfl, rfl, hsecond⟩,
    ⟨_, List.mem_cons_self, rfl, rfl, hplace⟩, hlines⟩

/-! ### A segment that was trimmed -/

def filledFirst : Machine := after (allocate .none 4032 ⟨1⟩) smallNew.machine

def filledSecond : Machine := after (allocate .none 100 ⟨2⟩) filledFirst

def freedFirst : Machine := after (free .none 0x10000040 ⟨3⟩) filledSecond

/-- The small heap after a block that filled it was freed, and then one behind it. -/
def trimmedWorld : World := ⟨after (free .none 0x10001040 ⟨4⟩) freedFirst, []⟩

/-- How it came about, the latest call first. -/
def trimmedHistory : List Entry :=
  [⟨.free 0x10001040, ⟨4⟩, freedFirst, trimmedWorld.machine⟩,
    ⟨.free 0x10000040, ⟨3⟩, filledSecond, freedFirst⟩,
    ⟨.allocate 100, ⟨2⟩, filledFirst, filledSecond⟩,
    ⟨.allocate 4032, ⟨1⟩, smallNew.machine, filledFirst⟩]

theorem run_trimmedWorld : trimmedWorld.Run trimmedHistory := by
  have hfirst : allocate .none 4032 ⟨1⟩ smallNew.machine = .ok 0x10000040 filledFirst :=
    run_of_returns (by decide +kernel)
  have hsecond : allocate .none 100 ⟨2⟩ filledFirst = .ok 0x10001040 filledSecond :=
    run_of_returns (by decide +kernel)
  have hfree : free .none 0x10000040 ⟨3⟩ filledSecond = .ok true freedFirst :=
    run_of_returns (by decide +kernel)
  have hlast : free .none 0x10001040 ⟨4⟩ freedFirst = .ok true trimmedWorld.machine :=
    run_of_returns (by decide +kernel)
  have hone := run_smallNew.call (c := .allocate 4032) trivial (run_bind_ok hfirst)
  have htwo := hone.call (c := .allocate 100) trivial (run_bind_ok hsecond)
  have hthree := htwo.call (c := .free 0x10000040) (Or.inr (by decide +kernel)) (run_bind_ok hfree)
  exact hthree.call (c := .free 0x10001040) (Or.inr (by decide +kernel)) (run_bind_ok hlast)

/-- The site a segment remembers need not be that of the latest call that released a block
inside its extent. -/
theorem not_freed_inside :
    ¬ ∀ (history : List Entry) (w : World), w.Run history →
      ∀ s ∈ w.machine.arena.walk.segments, s.header.used = false → ∀ site ∈ s.header.freedAt,
        ∃ e, Since (·.FreesIn s.offset s.stop) (¬ ·.FreesIn s.offset s.stop) history e ∧
          e.site = site := by
  intro hclaim
  have hmem : (⟨0, ⟨false, 4032, none, none, none, none, some ⟨4⟩⟩⟩ : Segment) ∈
      trimmedWorld.machine.arena.walk.segments := by decide +kernel
  have hwalk : freedFirst.arena.walk.segments =
      [⟨0, ⟨false, 4032, none, some 4096, none, none, some ⟨3⟩⟩⟩,
        ⟨4096, ⟨true, 112, some 0, none, none, none, none⟩⟩] := by decide +kernel
  obtain ⟨e, hsince, hsite⟩ := hclaim _ _ run_trimmedWorld _ hmem rfl ⟨4⟩ rfl
  rcases hsince with hlast | ⟨-, hsince⟩
  · -- the only block that was in use then lies behind the segment
    obtain ⟨t, ⟨ht, hu, -⟩, -, hstop⟩ := hlast
    have ht : t ∈ freedFirst.arena.walk.segments := ht
    rw [hwalk, List.mem_cons, List.mem_singleton] at ht
    rcases ht with rfl | rfl
    · cases hu
    · exact absurd hstop (by decide)
  · -- the calls before it came from other sites
    have hother : ∀ d ∈ trimmedHistory.tail, d.site ≠ ⟨4⟩ := by decide
    exact hother e hsince.mem hsite

end World

end GuardedHeap
