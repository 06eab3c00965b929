/-
  Proofs/Addresses.lean --- every address that a call shows is one of the window.

  WHAT THIS FILE IS FOR.  The address of an offset wraps when the offset is past the end
  of the address space, so that one that was read from a damaged header can still be
  shown.  Clients that behave never see such an address: what the heap writes to its
  journal, answers and reports are addresses of offsets up to the reserved maximum.

  WHAT IS PROVED.  An address lies in the window exactly if its offset is at most the
  reserved maximum.  All that is computed about the segments of a sound heap is in range,
  and in a state between calls every address that a permitted call shows lies in the
  window: those in the lines it writes, in its answer and in its report.
-/
import GuardedHeap.Proofs.Client

set_option autoImplicit false

namespace GuardedHeap

/-! ## Addresses that are shown -/

/-- An address of the window, or the one right behind it. -/
def Window.Holds (w : Window) (address : Nat) : Prop :=
  w.base ≤ address ∧ address ≤ w.base + w.ceiling

/-- The addresses in the message of an error. -/
def HeapError.addresses : HeapError → List Nat
  | addressOutOfRange addr start stop => [addr, start, stop]
  | misalignedAddress addr => [addr]
  | notAllocated segment => [segment]
  | corrupted segment _ _ => [segment]
  | brokenLink segment link top => [segment, link, top]
  | inconsistent segment _ => [segment]
  | useAfterFree addr _ _ => [addr]
  | doubleFree segment _ _ => [segment]
  | _ => []

/-- The addresses in what a fault reports. -/
def Fault.addresses : Fault → List Nat
  | detected error => error.addresses
  | fatal report => report.error.addresses
  | _ => []

/-- The addresses in a line of the journal. -/
def LogLine.addresses : LogLine → List Nat
  | started start stop => [start, stop]
  | visited addr _ _ => [addr]
  | growTop oldTop newTop => [oldTop, newTop]
  | notZero addr _ => [addr]
  | freeing addr _ => [addr]
  | resizing addr _ _ => [addr]
  | failing error => error.addresses
  | _ => []

/-- The addresses in an answer.  A null pointer is none. -/
def Reply.addresses : Reply → List Nat
  | address addr => [addr]
  | pointer addr => if addr = 0 then [] else [addr]
  | _ => []

/-- All addresses in a line lie in a window. -/
def LogLine.Located (w : Window) (l : LogLine) : Prop := ∀ x ∈ l.addresses, w.Holds x

theorem HeapError.Declines.addresses_eq {error : HeapError} (h : error.Declines) :
    error.addresses = [] := by
  cases error <;> first | rfl | exact h.elim

theorem Fault.addresses_reported (site : CallSite) (c : Context) (e : Fault) :
    (e.reported site c).addresses = e.addresses := by
  cases e <;> rfl

theorem Fault.addresses_of_mem {e : Fault} {l : LogLine} (h : l ∈ e.lines) :
    l.addresses = e.addresses := by
  cases e with
  | detected error =>
    rw [List.mem_singleton.mp h]
    rfl
  | refused reason => cases h
  | fatal report => cases h
  | panic cause => cases h

/-! ## Numbers that stay in range -/

namespace Arena

/-- A word handed to `addr` gives an address of the window exactly if it is at most the
reserved maximum. -/
theorem holds_addr_iff {a : Arena} {off : Nat} (h : off < 2 ^ 64) :
    a.window.Holds (a.addr off) ↔ off ≤ a.window.ceiling := by
  have hfits := a.window.fits
  have hpos := a.window.base_pos
  unfold Window.Holds addr
  rcases Nat.lt_or_ge (a.window.base + off) (2 ^ 64) with hlt | hge
  · rw [Nat.mod_eq_of_lt hlt]
    omega
  · rw [Nat.mod_eq_sub_mod hge, Nat.mod_eq_of_lt (by omega)]
    omega

theorem holds_addr {a : Arena} {off : Nat} (h : off ≤ a.window.ceiling) :
    a.window.Holds (a.addr off) :=
  (holds_addr_iff (by have := a.window.fits; omega)).mpr h

/-- What the heap computes about an arena is a word, and exact. -/
structure InRange (a : Arena) : Prop where
  top_le : a.top ≤ a.window.ceiling
  /-- no address up to the reserved maximum wraps -/
  addr_eq : ∀ off, off ≤ a.window.ceiling → a.addr off = a.window.base + off
  /-- the segments end below the top -/
  stop_le : ∀ s ∈ a.walk.segments, s.stop ≤ a.top
  /-- their payloads begin at addresses that do not wrap -/
  payload_eq : ∀ s ∈ a.walk.segments,
    a.payload s.offset = a.window.base + (s.offset + headerSize)
  /-- they can be counted -/
  count_lt : a.walk.segments.length < 2 ^ 64

/-- A row below the top of a window is in range. -/
theorem InRange.of_tiled {a : Arena} {bs : List Block} (ht : Tiled a.memory none 0 bs none)
    (hne : bs ≠ []) (hspan : span bs ≤ a.top) (htop : a.top ≤ a.window.ceiling) :
    a.InRange := by
  have hfits := a.window.fits
  have haddr : ∀ off, off ≤ a.window.ceiling → a.addr off = a.window.base + off :=
    fun off hoff => Nat.mod_eq_of_lt (by omega)
  have hwalk : a.walk = ⟨segments none 0 bs, none⟩ :=
    Arena.Lists.walkFrom_tiled ht hne (by omega) htop
  have hstop : ∀ s ∈ a.walk.segments, s.stop ≤ a.top := by
    intro s hs
    rw [hwalk] at hs
    obtain ⟨pre, b, post, rfl, rfl⟩ := mem_segments_iff.mp hs
    have hrow : span (pre ++ b :: post) = span pre + (b.extent + span post) := by
      rw [span_append, span_cons]
    show 0 + span pre + headerSize + b.size ≤ a.top
    have he : b.extent = headerSize + b.size := rfl
    omega
  refine ⟨htop, haddr, hstop, fun s hs => haddr _ ?_, ?_⟩
  · have hle := hstop s hs
    unfold Segment.stop at hle
    omega
  · have hlength := a.length_walkFrom 0
    have hlast := Arena.top_lt htop
    simp only [Arena.walk, headerSize] at *
    omega

theorem Lists.inRange {a : Arena} {bs : List Block} (h : a.Lists bs) : a.InRange :=
  .of_tiled h.tiled h.ne_nil (Nat.le_of_eq h.top_eq.symm) h.top_le

end Arena

theorem Machine.Stalled.inRange {m n : Machine} {bs : List Block} (h : m.Stalled bs n) :
    n.arena.InRange := by
  obtain ⟨bs', hne, htiled, hspan, -⟩ := h.row
  refine .of_tiled htiled hne hspan ?_
  rw [h.around.window_eq]
  exact h.le_ceiling

namespace LogLine

theorem OfPage.located {l : LogLine} (h : l.OfPage) (w : Window) : l.Located w := by
  cases h <;> exact nofun

/-- Lines of the search show where segments are, and tops. -/
theorem OfRoom.located {a : Arena} {l : LogLine} (h : l.OfRoom a) (hr : a.InRange) :
    l.Located a.window := by
  cases h with
  | page h => exact h.located _
  | @visited s hs =>
    intro x hx
    obtain rfl := List.mem_singleton.mp hx
    have hstop := hr.stop_le s hs
    have htop := hr.top_le
    unfold Segment.stop at hstop
    exact Arena.holds_addr (by omega)
  | @grown newTop hle =>
    intro x hx
    rcases List.mem_pair.mp hx with rfl | rfl
    · exact Arena.holds_addr hr.top_le
    · exact Arena.holds_addr hle

end LogLine

namespace Machine

/-! ## Work under the lock -/

section Work

variable {P : LogLine → Prop} {m : Machine} {bs pre post : List Block} {b : Block} {size : Nat}

theorem Adds.congr {α : Type} {x y : HeapM α} (h : x m = y m) (hy : Adds P m (after y m)) :
    Adds P m (after x m) := by
  unfold after at hy ⊢
  rwa [h]

theorem after_checkClear (hl : m.arena.Lists (pre ++ b :: post)) (hu : b.used = false)
    (hc : b.Clear) : after (checkClear (span pre)) m = m := by
  unfold after
  rcases Nat.lt_or_ge Word.maxRequest b.size with hlong | hmax
  · rw [run_checkClear_tooLong hl.read hu hlong]
  · rw [run_checkClear hl hu hmax hc]

theorem writes_occupyRoom (off size : Nat) (site : CallSite) :
    Writes P (occupyRoom off size site) :=
  .bind (.onArena _) fun _ => .get fun _ => .bind (.onArena _) fun _ => .pure _

/-- In a sound heap nothing is found in the room that is checked. -/
theorem adds_takeSegment (hs : m.arena.Sound m.platform bs) (hg : size % granule = 0)
    (site : CallSite) :
    Adds (LogLine.OfRoom m.arena) m (after (takeSegment .none size site) m) := by
  rw [takeSegment_eq]
  refine (adds_findRoom size m).bind fun off n hr => ?_
  have hroom := findRoom_cases hs.intact hg
  rw [hr] at hroom
  cases hroom with
  | @found _ pre post c hfound =>
    have hclear := (hfound.found.tidy hs.orderly.toTidy).clear c (by simp)
    have hcheck := after_checkClear (hfound.lists hs.lists) hfound.found.used_eq hclear
    exact Adds.bind (.of_eq (congrArg journal hcheck)) fun _ k _ => writes_occupyRoom _ _ _ k

/-- Nor in the block that another grows over. -/
theorem adds_growInPlace {rest : List Block} {y : Block}
    (hs : m.arena.Sound m.platform (pre ++ b :: y :: rest)) (hy : y.used = false) (size : Nat) :
    Adds LogLine.OfPage m (after (growInPlace .none (span pre) size (span pre + b.extent)) m) := by
  have hcheck := after_checkClear (Arena.Lists.concat_iff.mpr hs.lists) hy
    (hs.orderly.clear y (by simp))
  rw [span_concat] at hcheck
  unfold growInPlace
  refine Adds.bind (.of_eq (congrArg journal hcheck)) fun _ n _ => ?_
  refine Writes.bind (.onArena _) (fun tail => ?_) n
  cases tail with
  | none => exact .pure _
  | some tail => exact writes_trim tail

theorem adds_relocate (hs : m.arena.Sound m.platform bs) (hg : size % granule = 0)
    (off held : Nat) (site : CallSite) :
    Adds (LogLine.OfRoom m.arena) m (after (relocate .none off held size site) m) := by
  refine (adds_takeSegment hs hg site).bind fun target n _ => ?_
  refine Writes.get (fun _ => .bind (.onArena _) fun _ => .bind ?_ fun _ => .pure _) n
  exact (writes_releaseSegment off site).mono fun _ => .page

theorem adds_resizeBlock (hs : m.arena.Sound m.platform (pre ++ b :: post)) (hu : b.used = true)
    (hfilled : 0 < b.size) (hg : size % granule = 0) (site : CallSite) :
    Adds (LogLine.OfRoom m.arena) m
      (after (resizeBlock .none (m.arena.payload (span pre)) size site) m) := by
  rcases Nat.lt_or_ge b.size size with hlt | hle
  · by_cases hroom : b.HasRoomBehind size post
    · refine Adds.congr (resizeBlock_grown hs.lists hu hfilled hlt hroom _ site) ?_
      obtain ⟨y, rest, rfl, hy, -⟩ := hroom
      exact ((adds_growInPlace hs hy size).mono fun _ => .page).bind fun _ n _ => .refl n
    · exact Adds.congr (resizeBlock_moved hs.lists hu hfilled hlt hroom _ site)
        (adds_relocate hs hg _ _ site)
  · refine Adds.congr (resizeBlock_cut hs.lists hu hfilled hle _ site) ?_
    exact ((writes_shrink (span pre) size m).mono fun _ => .page).bind fun _ n _ => .refl n

end Work

/-! ## Around the work -/

section Around

variable {α : Type} {w : Window} {m : Machine} {body : HeapM α} {line : LogLine}

theorem writes_releaseLock {P : LogLine → Prop} : Writes P releaseLock :=
  .get fun _ => .ite (fun _ => .of_eq rfl) (.throw _)

/-- Taking the lock and giving it back shows no address. -/
theorem adds_locked (hl : m.lock = .unlocked) (site : CallSite)
    (hbody : ∀ j, Adds (LogLine.Located w) (m.entered site j) (after body (m.entered site j))) :
    Adds (LogLine.Located w) m (after (locked site body) m) := by
  have hquiet : ∀ l ∈ m.onceBooted (.locking m.context.cpu), l.Located w := by
    unfold onceBooted
    split
    · exact fun l hl => List.mem_singleton.mp hl ▸ nofun
    · exact nofun
  unfold locked
  by_cases ho : m.Open
  · have henter := run_enter_open hl ho site
    refine Adds.bind ?_ fun r n hn => ?_
    · unfold after
      rw [henter]
      exact ⟨_, rfl, hquiet⟩
    · rw [henter] at hn
      cases hn
      refine ((hbody _).tryCatch fun e k _ => ?_).bind fun r k _ => ?_
      · exact Writes.bind writes_releaseLock (fun _ => .throw e) k
      · refine Writes.bind writes_releaseLock (fun _ => .get fun o => ?_) k
        exact .ite (.bind (.log nofun) fun _ => .pure r) (.pure r)
  · refine Adds.bind ?_ fun r n hn => ?_
    · unfold after
      rw [run_enter_closed ho site]
      exact .refl m
    · rw [run_enter_closed ho site] at hn
      cases hn

theorem adds_log_locked (hl : m.lock = .unlocked) (hline : line.Located w) (site : CallSite)
    (hbody : ∀ n : Machine, n.arena = m.arena → n.platform = m.platform →
      Adds (LogLine.Located w) n (after body n)) :
    Adds (LogLine.Located w) m (after (do
      log line
      locked site body : HeapM α) m) := by
  refine (Adds.push hline m).bind (x := log line) ?_
  rintro _ _ ⟨⟩
  exact adds_locked (m := { m with journal := m.journal.push line }) hl site fun j =>
    hbody _ rfl rfl

/-- A report that shows no address adds a line that shows none. -/
theorem adds_reporting (site : CallSite) (hbody : Adds (LogLine.Located w) m (after body m))
    (hE : Ends (fun _ _ => True) (fun e _ => e.addresses = []) (reporting site body m)) :
    Adds (LogLine.Located w) m (after (reporting site body) m) := by
  cases hr : body m with
  | ok r n =>
    unfold after reporting
    rw [run_tryCatch_ok hr]
    exact hbody.of_ok hr
  | error e n =>
    have hrun := run_reporting_error hr site
    rw [hrun] at hE
    have hnone : e.addresses = [] := (e.addresses_reported site n.context).symm.trans hE
    unfold after
    rw [hrun]
    refine (hbody.of_error hr).trans ⟨e.lines, rfl, fun l hl x hx => ?_⟩
    rw [Fault.addresses_of_mem hl, hnone] at hx
    cases hx

end Around

/-! ## The calls -/

section Calls

variable {m : Machine} {bs : List Block} {off size : Nat} {b : Block}

theorem Reported.addresses_eq {e : Fault} {n : Machine} (h : m.Reported bs e n) :
    e.addresses = [] := by
  obtain ⟨⟨report, rfl, hdeclines⟩ | ⟨rfl, -⟩, -⟩ := h
  · exact hdeclines.addresses_eq
  · rfl

theorem Served.holds_payload (hs : m.Served bs) (hb : (off, b) ∈ live 0 bs) :
    m.arena.window.Holds (m.arena.payload off) := by
  have hstop := (hs.stands hb).2
  have htop := hs.sound.lists.top_le
  have he : b.extent = headerSize + b.size := rfl
  exact Arena.holds_addr (by omega)

theorem adds_tryAllocate (hs : m.Served bs) (size : Nat) (site : CallSite) :
    Adds (LogLine.Located m.arena.window) m (after (tryAllocate .none size site) m) := by
  by_cases hmax : Word.maxRequest < size
  · unfold tryAllocate
    rw [if_pos hmax]
    exact .refl m
  · rw [tryAllocate_eq (Nat.le_of_not_lt hmax)]
    refine adds_log_locked hs.lock_eq ?_ site fun n harena hplatform => ?_
    · exact nofun
    · have hsound := hs.sound_of_eq harena hplatform
      have htaken := adds_takeSegment hsound (requestSize_aligned size) site
      rw [harena] at htaken
      exact (htaken.mono fun l hl => hl.located hs.sound.lists.inRange).bind fun _ k _ => .refl k

theorem adds_tryFree (hs : m.Served bs) (hb : (off, b) ∈ live 0 bs) (site : CallSite) :
    Adds (LogLine.Located m.arena.window) m
      (after (tryFree .none (m.arena.payload off) site) m) := by
  refine adds_log_locked hs.lock_eq ?_ site fun n _ _ => ?_
  · intro x hx
    rw [List.mem_singleton.mp hx]
    exact hs.holds_payload hb
  · refine Writes.get (fun _ => .bind (.lift _) fun off => ?_) n
    exact (writes_releaseSegment off site).mono fun l hl => hl.located _

theorem adds_tryResize (hs : m.Served bs) (hb : (off, b) ∈ live 0 bs)
    (hmax : size ≤ Word.maxRequest) (site : CallSite) :
    Adds (LogLine.Located m.arena.window) m
      (after (tryResize .none (m.arena.payload off) size site) m) := by
  have hholds := hs.holds_payload hb
  obtain ⟨hu, pre, post, rfl, hoff⟩ := mem_live_iff.mp hb
  rw [Nat.zero_add] at hoff
  subst hoff
  rw [tryResize_eq hmax]
  refine adds_log_locked hs.lock_eq ?_ site fun n harena hplatform => ?_
  · intro x hx
    rw [List.mem_singleton.mp hx]
    exact hholds
  · have hsound := hs.sound_of_eq harena hplatform
    have hresized := adds_resizeBlock hsound hu (hs.filled _ hb) (Word.roundUp_mod size) site
    rw [harena] at hresized
    exact hresized.mono fun l hl => hl.located hs.sound.lists.inRange

theorem adds_allocate (hs : m.Served bs) (size : Nat) (site : CallSite) :
    Adds (LogLine.Located m.arena.window) m (after (allocate .none size site) m) :=
  adds_reporting site (adds_tryAllocate hs size site)
    ((ends_allocate hs size site).mono (fun _ _ _ => trivial) fun _ _ hn => hn.addresses_eq)

theorem adds_free (hs : m.Served bs) (hb : (off, b) ∈ live 0 bs) (site : CallSite) :
    Adds (LogLine.Located m.arena.window) m
      (after (free .none (m.arena.payload off) site) m) := by
  have hends : Ends (fun _ _ => True) (fun e _ => e.addresses = [])
      (reporting site (tryFree .none (m.arena.payload off) site) m) := by
    refine ends_reported site ?_ ((ends_tryFree hs hb site).mono (fun _ _ _ => trivial)
      fun _ _ hn => hn)
    rintro _ n ⟨-, rfl, -⟩
    rfl
  unfold free
  rw [if_neg (hs.payload_eq hb).2]
  exact (adds_reporting site (adds_tryFree hs hb site) hends).bind fun _ n _ => .refl n

theorem adds_reallocate_null (hs : m.Served bs) (size : Nat) (site : CallSite) :
    Adds (LogLine.Located m.arena.window) m (after (reallocate .none 0 size site) m) := by
  refine adds_reporting site ?_
    ((ends_reallocate_null hs size site).mono (fun _ _ _ => trivial) fun _ _ hn => hn.addresses_eq)
  unfold tryReallocate
  by_cases hmax : Word.maxRequest < size
  · rw [if_pos hmax]
    exact .refl m
  · rw [if_neg hmax]
    by_cases hzero : size = 0
    · rw [if_pos hzero]
      exact .refl m
    · rw [if_neg hzero, if_pos rfl]
      exact adds_tryAllocate hs size site

theorem adds_reallocate (hs : m.Served bs) (hb : (off, b) ∈ live 0 bs) (size : Nat)
    (site : CallSite) :
    Adds (LogLine.Located m.arena.window) m
      (after (reallocate .none (m.arena.payload off) size site) m) := by
  have haddress := (hs.payload_eq hb).2
  have hends : Ends (fun _ _ => True) (m.Reported bs)
      (reallocate .none (m.arena.payload off) size site m) := by
    rcases Nat.eq_zero_or_pos size with rfl | hpos
    · exact (ends_reallocate_zero hs hb site).mono (fun _ _ _ => trivial) fun _ _ hn => hn
    · exact (ends_reallocate hs hb hpos site).mono (fun _ _ _ => trivial) fun _ _ hn => hn
  refine adds_reporting site ?_ (hends.mono (fun _ _ hn => hn) fun _ _ hn => hn.addresses_eq)
  unfold tryReallocate
  by_cases hmax : Word.maxRequest < size
  · rw [if_pos hmax]
    exact .refl m
  · rw [if_neg hmax]
    by_cases hzero : size = 0
    · rw [if_pos hzero, if_pos haddress]
      exact (adds_tryFree hs hb site).bind fun _ n _ => .refl n
    · rw [if_neg hzero, if_neg haddress]
      exact adds_tryResize hs hb (Nat.le_of_not_lt hmax) site

/-! ### Layouts -/

theorem adds_allocateLayout (hs : m.Served bs) (hi : m.installed = true) (l : Layout)
    (site : CallSite) :
    Adds (LogLine.Located m.arena.window) m (after (allocateLayout .none l site) m) := by
  refine Adds.congr (run_bind_ok (run_requireInstalled hi)) ?_
  by_cases hl : l.Plain
  · rw [if_pos hl]
    exact adds_allocate hs l.size site
  · rw [if_neg hl]
    refine (adds_allocate hs l.paddedSize site).bind fun block n _ => ?_
    exact Writes.bind (.lift _) (fun _ => .bind (.lift _) fun _ => .get fun _ =>
      .bind (.onArena _) fun _ => .pure _) n

/-- The block that memory of a large alignment lies in is known by its payload. -/
theorem adds_freeLayout {l : Layout} {address : Nat} (hs : m.Served bs) (hi : m.installed = true)
    (hl : ¬ l.Plain) (hb : (off, b) ∈ live 0 bs)
    (hbehind : Behind m.arena.window.base l address off b) (site : CallSite) :
    Adds (LogLine.Located m.arena.window) m (after (freeLayout .none address l site) m) := by
  refine Adds.congr ((run_bind_ok (run_requireInstalled hi)).trans (run_bind_ok (run_get m))) ?_
  rw [if_neg hl, word_slot hs hb hbehind]
  exact (adds_free hs hb site).bind fun _ n _ => .refl n

theorem adds_reallocateLayout {l : Layout} {address : Nat} (hs : m.Served bs)
    (hi : m.installed = true) (hl : ¬ l.Plain) (hb : (off, b) ∈ live 0 bs)
    (hbehind : Behind m.arena.window.base l address off b) (newSize : Nat) (site : CallSite) :
    Adds (LogLine.Located m.arena.window) m
      (after (reallocateLayout .none address l newSize site) m) := by
  unfold reallocateLayout
  rw [if_neg hl]
  cases hsome : Layout.ofSizeAlign? newSize l.align with
  | none => exact .refl m
  | some newLayout =>
    obtain ⟨hsize, halign⟩ := Layout.ofSizeAlign?_eq_some hsome
    have hl' : ¬ newLayout.Plain := by
      unfold Layout.Plain
      rwa [halign]
    refine (adds_allocateLayout hs hi newLayout site).bind fun target n hn => ?_
    have hex := ends_allocateLayout hs hi hl' site
    rw [hn] at hex
    obtain ⟨a, off', d, bs₁, hcopy, -, h₁, -, -, -⟩ := exists_refilled hs hb hbehind hsize hex
    have hwindow : (arena { n with arena := a }).window = m.arena.window := h₁.around.window_eq
    have hbehind₁ : Behind (arena { n with arena := a }).window.base l address off b := by
      rwa [hwindow]
    have hfreed := adds_freeLayout (h₁.served hs) (h₁.around.installed_eq.trans hi) hl
      (h₁.mem_live hb List.not_mem_nil) hbehind₁ site
    rw [hwindow] at hfreed
    refine Adds.bind (.refl n) ?_
    rintro _ _ ⟨⟩
    refine Adds.bind (Writes.onArena _ n) fun r k hk => ?_
    rw [run_onArena_ok hcopy] at hk
    cases hk
    exact hfreed.bind fun _ k _ => .refl k

/-! ### What clients pass -/

section Passed

variable {ledger : List Grant} {l : Layout} {address : Nat}
  (hs : m.Served bs) (hm : Matches m.arena.window.base ledger (live 0 bs))

include hs hm

theorem adds_free_passed (hp : MayPass ledger ⟨address, none⟩) (site : CallSite) :
    Adds (LogLine.Located m.arena.window) m (after (free .none address site) m) := by
  rcases hp with ⟨hnull, -⟩ | hg
  · rw [show address = 0 from hnull]
    exact .refl m
  · obtain ⟨off, b, rest, hb, rfl, -⟩ := exists_owned hs hm hg
    exact adds_free hs hb site

theorem adds_reallocate_passed (hp : MayPass ledger ⟨address, none⟩) (size : Nat)
    (site : CallSite) :
    Adds (LogLine.Located m.arena.window) m (after (reallocate .none address size site) m) := by
  rcases hp with ⟨hnull, -⟩ | hg
  · rw [show address = 0 from hnull]
    exact adds_reallocate_null hs size site
  · obtain ⟨off, b, rest, hb, rfl, -⟩ := exists_owned hs hm hg
    exact adds_reallocate hs hb size site

omit hs in
/-- A pointer of large alignment that may be passed lies in a live block. -/
theorem exists_behind_passed (hl : ¬ l.Plain) (hp : MayPass ledger (l.grant address)) :
    ∃ off b, (off, b) ∈ live 0 bs ∧ Behind m.arena.window.base l address off b := by
  unfold Layout.grant at hp
  rw [if_neg hl] at hp
  rcases hp with ⟨-, hnone⟩ | hg
  · cases hnone
  · obtain ⟨⟨off, b⟩, rest, ho, hperm, -⟩ := hm.pick hg
    exact ⟨off, b, hperm.subset List.mem_cons_self, ho.2⟩

theorem adds_freeLayout_passed (hi : m.installed = true) (hp : MayPass ledger (l.grant address))
    (site : CallSite) :
    Adds (LogLine.Located m.arena.window) m (after (freeLayout .none address l site) m) := by
  by_cases hl : l.Plain
  · unfold Layout.grant at hp
    rw [if_pos hl] at hp
    refine Adds.congr ((run_bind_ok (run_requireInstalled hi)).trans (run_bind_ok (run_get m))) ?_
    rw [if_pos hl]
    exact (adds_free_passed hs hm hp site).bind fun _ n _ => .refl n
  · obtain ⟨off, b, hb, hbehind⟩ := exists_behind_passed hm hl hp
    exact adds_freeLayout hs hi hl hb hbehind site

theorem adds_reallocateLayout_passed (hi : m.installed = true)
    (hp : MayPass ledger (l.grant address)) (newSize : Nat) (site : CallSite) :
    Adds (LogLine.Located m.arena.window) m
      (after (reallocateLayout .none address l newSize site) m) := by
  by_cases hl : l.Plain
  · unfold Layout.grant at hp
    rw [if_pos hl] at hp
    unfold reallocateLayout
    rw [if_pos hl]
    refine Adds.congr (run_bind_ok (run_requireInstalled hi)) ?_
    exact adds_reallocate_passed hs hm hp newSize site
  · obtain ⟨off, b, hb, hbehind⟩ := exists_behind_passed hm hl hp
    exact adds_reallocateLayout hs hi hl hb hbehind newSize site

end Passed

/-! ### Looking at the heap -/

section Looking

variable {w : Window}

/-- A listing shows sizes and call sites. -/
theorem writes_addUsage (details : Bool) (u : Usage) (ss : List Segment) :
    Writes (LogLine.Located w) (addUsage details u ss) := by
  have hline (h : Header) (line : LogLine) (hsome : usageLine h = some line) : line.Located w := by
    unfold usageLine at hsome
    split at hsome
    · cases hsome
      exact nofun
    · cases hsome
  induction ss generalizing u with
  | nil => exact .pure u
  | cons s rest ih =>
    unfold addUsage
    refine .ite (.bind (.lift _) fun used => .ite ?_ (ih _)) (.bind (.lift _) fun _ => ih _)
    cases hsome : usageLine s.header with
    | none => exact ih _
    | some line => exact .bind (.log (hline _ _ hsome)) fun _ => ih _

theorem adds_tryUsedBytes (hl : m.lock = .unlocked) (details : Bool) (site : CallSite) :
    Adds (LogLine.Located w) m (after (tryUsedBytes details site) m) := by
  refine Adds.bind (adds_locked hl site fun j => ?_) fun u n _ => ?_
  · cases details with
    | false =>
      refine Writes.get (fun n => .bind (writes_addUsage false _ _) fun u => ?_) _
      cases n.arena.walk.failure with
      | none => exact .pure u
      | some f => exact .throw_bind f _
    | true =>
      refine Writes.bind (.log nofun)
        (fun _ => .get fun n => .bind (writes_addUsage true _ _) fun u => ?_) _
      cases n.arena.walk.failure with
      | none => exact .pure u
      | some f => exact .throw_bind f _
  · cases details with
    | false => exact .refl n
    | true => exact Writes.bind (.lift _) (fun _ => .bind (.log nofun) fun _ => .pure _) n

theorem adds_tryTotals (hl : m.lock = .unlocked) (site : CallSite) :
    Adds (LogLine.Located w) m (after (tryTotals site) m) :=
  adds_locked hl site fun _ => Writes.get (fun _ => .lift _) _

end Looking

end Calls

end Machine

end GuardedHeap
