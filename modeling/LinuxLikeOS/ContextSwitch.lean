import LinuxLikeOS.SlotOwnership

/-! # Contexts across switches

`PIT_handler` saves `esp` and `ebp` in the control block of the process it leaves,
and what it loads for the process it enters should be what was saved when that
process was left.  The history of a run records, for every terminal, the context in
force when it last stopped being the executing one (`Departure`), and whether its
control block held that context.

A terminal stops executing in two ways: a tick, which saves first, or the opening of
another terminal, which does not.  The theorem says that this is the only way to
resume a terminal from another context than the one it was left in: in the runs in
which terminals own their slots, a tick loads the context its terminal was left in
exactly if that context was in the control block when the terminal was left.
-/
namespace LinuxLikeOS
open StackFamily Transition

/-! ## The history -/

/-- How a terminal last stopped being the executing one: the context in force, and
whether the control block of its process held it. -/
structure Departure where
  regs : Regs
  saved : Bool
  deriving DecidableEq

/-- The last departure of each terminal. -/
abbrev Departures := Fin 3 → Option Departure

/-- The departures after an event: a tick to another terminal saves the context, and
opening a terminal leaves the control block as it is. -/
def recordDeparture (k : Kernel) (left : Departures) : Event → Departures
  | .pitTick regs =>
    if k.tickTarget = k.currTerminalExecuting then left
    else Function.update left k.currTerminalExecuting (some ⟨regs, true⟩)
  | .switchTo t _ entry _ =>
    if t = k.currTerminalVisible ∨ (k.multiTerminal t).active = true then left
    else Function.update left k.currTerminalExecuting
      (some ⟨entry, (k.pcb k.executingSlot).context = entry⟩)
  | _ => left

/-- The kernel with the record of bottom shells and departures. -/
def contextMachine (fs : FileSystem) : Machine (Kernel × Shells × Departures) Event :=
  (kernelMachine fs).withHistory fun k e h => (recordShell fs k e h.1, recordDeparture k h.2 e)

/-- The kernel after booting; no terminal has been left. -/
def bootedContexts (fs : FileSystem) (h : Hardware) (junk : Nat → Byte) (regs : Regs) :
    Kernel × Shells × Departures :=
  (booted fs h junk regs, bootShells, fun _ => none)

/-- A tick to another terminal goes on with the context that terminal was left in. -/
def ResumesWhereLeft (c : Kernel × Shells × Departures) : Event → Prop
  | .pitTick regs => c.1.tickTarget ≠ c.1.currTerminalExecuting →
      ∃ d, c.2.2 c.1.tickTarget = some d ∧ (pitHandler c.1 regs).2 = d.regs
  | _ => True

/-- A tick to another terminal goes to one whose control block held its context when
it was left. -/
def ResumesSaved (c : Kernel × Shells × Departures) : Event → Prop
  | .pitTick _ => c.1.tickTarget ≠ c.1.currTerminalExecuting →
      ∃ d, c.2.2 c.1.tickTarget = some d ∧ d.saved = true
  | _ => True

/-! ## Contexts of the terminals that do not execute -/

/-- The control block of every active terminal that does not execute holds the
context it was left in, if that was saved, and otherwise another one. -/
def Kept (v : View) (left : Departures) : Prop :=
  ∀ t, t ≠ v.executing → v.active t = true →
    ∃ d, left t = some d ∧ (d.saved = true ↔ v.context (pcbIndex (v.programPid t)) = d.regs)

section Steps
variable {fs : FileSystem} {k : Kernel} {S S' : Processes} {left : Departures} {e : Event}

/-- An active terminal's control block is that of the top of its stack. -/
theorem Links.programSlot {v : View} (h : Links v S) {t : Fin 3} (ht : v.active t = true) :
    ∃ p, (S.stack t).head? = some p ∧ pcbIndex (v.programPid t) = View.slotOf p := by
  obtain ⟨p, rest, hstack⟩ := List.exists_cons_of_ne_nil ((h.active_iff t).mp ht)
  have hhead : (S.stack t).head? = some p := by rw [hstack]; rfl
  exact ⟨p, hhead, by rw [h.top t p hhead]; rfl⟩

/-- Two active terminals have different control blocks. -/
theorem Links.programSlot_ne {v : View} (h : Links v S) {t u : Fin 3} (htu : t ≠ u)
    (ht : v.active t = true) (hu : v.active u = true) :
    pcbIndex (v.programPid t) ≠ pcbIndex (v.programPid u) := by
  obtain ⟨p, hp, hslot⟩ := h.programSlot ht
  obtain ⟨q, hq, hslot'⟩ := h.programSlot hu
  rw [hslot, hslot']
  intro heq
  rw [slotOf_inj.mp heq] at hp
  exact htu (head_unique hp hq)

/-- A free slot is not the one an active terminal's program has. -/
theorem Links.programSlot_ne_free {v : View} (h : Links v S) {t : Fin 3} {pid : Fin 6}
    (ht : v.active t = true) (hfree : ¬S.Owns pid) :
    pcbIndex (v.programPid t) ≠ View.slotOf pid := by
  obtain ⟨p, hp, hslot⟩ := h.programSlot ht
  rw [hslot]
  intro heq
  rw [slotOf_inj.mp heq] at hp
  exact hfree ⟨t, List.mem_of_head? hp⟩

theorem kept_tick (h : Represents k.view S) (hkept : Kept k.view left) (regs : Regs) :
    Kept (k.view.tick k.tickTarget regs) (recordDeparture k left (.pitTick regs)) := by
  intro t ht hact
  have hact' : k.view.active t = true := hact
  by_cases hexec : t = k.view.executing
  · -- the terminal the tick leaves: its context has just been saved
    subst hexec
    have hne : k.tickTarget ≠ k.currTerminalExecuting := fun heq => ht heq.symm
    refine ⟨⟨regs, true⟩, ?_, ?_⟩
    · simp only [recordDeparture, if_neg hne]
      exact Function.update_self ..
    · simp [View.tick, View.current]
  · -- the save goes to another terminal's control block
    obtain ⟨d, hd, hiff⟩ := hkept t hexec hact'
    refine ⟨d, ?_, ?_⟩
    · simp only [recordDeparture]
      split
      · exact hd
      · rw [Function.update_of_ne (show t ≠ k.currTerminalExecuting from hexec)]
        exact hd
    · rw [hiff]
      have hslot := h.programSlot_ne hexec hact' h.executing
      simp only [View.tick, View.current, Function.update_of_ne hslot]

/-- A launch in a fresh slot keeps the contexts of the terminals that do not
execute. -/
theorem kept_launch {v : View} {pid : Fin 6} (hkept : Kept v left)
    (hslot : ∀ t, t ≠ v.executing → v.active t = true →
      pcbIndex (v.programPid t) ≠ View.slotOf pid) (regs : Regs) :
    Kept (v.launch pid regs) left := by
  intro t ht hact
  have hne : t ≠ v.executing := ht
  have hact' : v.active t = true := by simpa [View.launch, hne] using hact
  obtain ⟨d, hd, hiff⟩ := hkept t hne hact'
  refine ⟨d, hd, ?_⟩
  rw [hiff]
  simp only [View.launch, Function.update_of_ne hne, Function.update_of_ne (hslot t hne hact')]

theorem kept_open (hkept : Kept k.view left) {t : Fin 3}
    (hvis : t ≠ k.currTerminalVisible) (hinactive : k.view.active t = false) (pid : Int)
    (junk : Nat → Byte) (entry frame : Regs) :
    Kept (k.view.open_ t pid) (recordDeparture k left (.switchTo t junk entry frame)) := by
  intro u hu hact
  have hne : u ≠ t := hu
  have hact' : k.view.active u = true := by simpa [View.open_, hne] using hact
  have hrec : recordDeparture k left (.switchTo t junk entry frame) =
      Function.update left k.currTerminalExecuting
        (some ⟨entry, (k.pcb k.executingSlot).context = entry⟩) := by
    have hin : (k.multiTerminal t).active = false := hinactive
    simp [recordDeparture, hvis, hin]
  rw [hrec]
  have hprogram : (k.view.open_ t pid).programPid u = k.view.programPid u :=
    Function.update_of_ne hne ..
  rw [hprogram]
  by_cases hexec : u = k.view.executing
  · -- nothing is saved: what the control block holds is what it held
    subst hexec
    refine ⟨_, Function.update_self .., ?_⟩
    exact decide_eq_true_iff
  · rw [Function.update_of_ne (show u ≠ k.currTerminalExecuting from hexec)]
    exact hkept u hexec hact'

theorem kept_effect {v' : View} {new : Option (Fin 3 × Fin 6)} (h : Represents k.view S)
    (hkept : Kept k.view left) (heff : Effect k S e v' new S') :
    Kept v' (recordDeparture k left e) := by
  cases heff with
  | call he =>
    cases e with
    | pitTick | switchTo | execute | halt => cases he
    | _ => exact hkept
  | tick regs => exact kept_tick h hkept regs
  | same hvis => simpa [recordDeparture, hvis] using hkept
  | @show_ t junk entry frame _ hactive =>
    have hact : (k.multiTerminal t).active = true := hactive
    have hrec : recordDeparture k left (.switchTo t junk entry frame) = left := by
      simp [recordDeparture, hact]
    rw [hrec]
    exact hkept
  | @opened t _ _ _ pid hvis hinactive _ hfree =>
    refine kept_launch (kept_open hkept hvis hinactive pid _ _ _) ?_ _
    intro u hu hact
    have hne : u ≠ t := hu
    have hact' : k.view.active u = true := by simpa [View.open_, hne] using hact
    have hprogram : (k.view.open_ t pid).programPid u = k.view.programPid u :=
      Function.update_of_ne hne ..
    rw [hprogram]
    exact h.programSlot_ne_free hact' hfree
  | refused => exact hkept
  | launched _ hfree =>
    exact kept_launch hkept (fun t _ hact => h.programSlot_ne_free hact hfree) _
  | renewed hstack _ hfree =>
    have hretired : Kept k.view.retire left := by
      intro t ht hact
      have hne : t ≠ k.view.executing := ht
      have hact' : k.view.active t = true := by simpa [View.retire, hne] using hact
      exact hkept t hne hact'
    exact kept_launch hretired
      (fun t _ hact => (h.toLinks.retire hstack).programSlot_ne_free hact hfree) _
  | popped =>
    intro t ht hact
    have hne : t ≠ k.view.executing := ht
    obtain ⟨d, hd, hiff⟩ := hkept t hne hact
    refine ⟨d, hd, ?_⟩
    rw [hiff]
    simp only [View.giveBack, Function.update_of_ne hne]

/-- A tick to another terminal loads what its control block held before. -/
theorem pitHandler_loads (h : Represents k.view S)
    (hne : k.tickTarget ≠ k.currTerminalExecuting) (regs : Regs) :
    (pitHandler k regs).2 = k.view.context (pcbIndex (k.view.programPid k.tickTarget)) := by
  have hactive := (represents_pitHandler h regs).1
  have hslot := h.programSlot_ne (show k.tickTarget ≠ k.view.executing from hne) hactive h.executing
  rw [pitHandler_context, view_pitHandler]
  simp only [View.tick, View.current] at hslot ⊢
  rw [Function.update_of_ne hslot]

theorem resumesWhereLeft_iff {shells : Shells} (h : Represents k.view S)
    (hkept : Kept k.view left) :
    ResumesWhereLeft (k, shells, left) e ↔ ResumesSaved (k, shells, left) e := by
  cases e with
  | pitTick regs =>
    refine forall_congr' fun hne => exists_congr fun d => and_congr_right fun hd => ?_
    obtain ⟨d', hd', hiff⟩ := hkept k.tickTarget hne (represents_pitHandler h regs).1
    rw [show left k.tickTarget = some d from hd, Option.some.injEq] at hd'
    subst hd'
    rw [pitHandler_loads h hne, hiff]
  | _ => exact Iff.rfl

end Steps

/-! ## Over whole runs -/

/-- The kernel stores stacks, the shells are recorded, and the contexts are kept. -/
def KeepsContexts (c : Kernel × Shells × Departures) : Prop :=
  ∃ S, Represents c.1.view S ∧ Recorded c.2.1 S ∧ Kept c.1.view c.2.2

section Runs
variable {fs : FileSystem}

theorem keepsContexts_booted (hshell : fs.Executable shell) (h : Hardware) (junk : Nat → Byte)
    (regs : Regs) : KeepsContexts (bootedContexts fs h junk regs) := by
  refine ⟨bootProcesses, (represents_booted hshell h junk regs).1, recorded_boot, ?_⟩
  intro t ht hact
  have hzero : (booted fs h junk regs).view.active t = true → t = 0 := by
    rw [view_booted hshell]
    have hboot : ∀ t, Function.update (fun t : Fin 3 => decide (t = 0)) 0 true t = true →
        t = 0 := by
      decide
    exact hboot t
  have hexec : (booted fs h junk regs).view.executing = 0 := by rw [view_booted hshell]; rfl
  exact absurd ((hzero hact).trans hexec.symm) ht

theorem keepsContexts_step (hshell : fs.Executable shell) (c : Kernel × Shells × Departures)
    (e : Event) (hs : KeepsContexts c)
    (hg : OpensUnjammed c.1 e ∧ HaltsRight (c.1, c.2.1) e) :
    KeepsContexts ((contextMachine fs).step c e) := by
  obtain ⟨S, hrep, hrec, hkept⟩ := hs
  obtain ⟨S', heff, hrep'⟩ :=
    step_effect hshell hrep hg.1 ((takesItsBranch_iff hrep hrec).mpr hg.2)
  exact ⟨S', hrep', recorded_effect hrep hrec heff, kept_effect hrep hkept heff⟩

/-- **Context switches.**  In a run that opens no terminal while the kernel is jammed
and in which `halt` recognises the bottom shells, every tick to another terminal
resumes it where it was left exactly if every such tick goes to a terminal whose
context was saved when it was left. -/
theorem resumesWhereLeft_run (hshell : fs.Executable shell) (h : Hardware) (junk : Nat → Byte)
    (regs : Regs) (es : List Event)
    (hg : (contextMachine fs).Guarded
      (fun c e => OpensUnjammed c.1 e ∧ HaltsRight (c.1, c.2.1) e)
      (bootedContexts fs h junk regs) es) :
    (contextMachine fs).Guarded ResumesWhereLeft (bootedContexts fs h junk regs) es ↔
      (contextMachine fs).Guarded ResumesSaved (bootedContexts fs h junk regs) es := by
  have hboth := Machine.guarded_of_step (H := fun c e => ResumesWhereLeft c e ↔ ResumesSaved c e)
    (keepsContexts_step hshell) (fun c e ⟨_, hrep, _, hkept⟩ _ => resumesWhereLeft_iff hrep hkept)
    (keepsContexts_booted hshell h junk regs) hg
  exact Machine.guarded_congr hboth

end Runs

theorem resumesWhereLeft_twoTerminals :
    (contextMachine shellImage).Guarded ResumesWhereLeft
        (bootedContexts shellImage zeroHardware noJunk ⟨0x7FFF00, 0x7FFF40⟩) twoTerminals ↔
      (contextMachine shellImage).Guarded ResumesSaved
        (bootedContexts shellImage zeroHardware noJunk ⟨0x7FFF00, 0x7FFF40⟩) twoTerminals :=
  resumesWhereLeft_run shellImage_executable zeroHardware noJunk ⟨0x7FFF00, 0x7FFF40⟩ twoTerminals
    (by decide +kernel)

/-- Alt and F2, then two ticks: the second goes back to the first terminal. -/
def openedAndBack : List Event :=
  [.switchTo 1 noJunk ⟨0x7FFE00, 0x7FFE40⟩ ⟨0x7FFD00, 0x7FFD40⟩,
    .pitTick ⟨0x7FDF00, 0x7FDF40⟩, .pitTick ⟨0x7FDF00, 0x7FDF40⟩]

/-- The first terminal is resumed at the context its shell was launched with. -/
theorem resumesWhereLeft_openedAndBack :
    ¬∀ (fs : FileSystem) (h : Hardware) (junk : Nat → Byte) (regs : Regs) (es : List Event),
      fs.Executable shell → (∀ e ∈ es, e.IsCall = false) →
        (contextMachine fs).Guarded ResumesWhereLeft (bootedContexts fs h junk regs) es := by
  intro hall
  have hresumes := hall shellImage zeroHardware noJunk ⟨0x7FFF00, 0x7FFF40⟩ openedAndBack
    shellImage_executable (by decide)
  obtain ⟨d, hd, hregs⟩ := hresumes.2.2.1 (by decide +kernel)
  revert hregs
  have hleft : d = ⟨⟨0x7FFE00, 0x7FFE40⟩, false⟩ := by
    rw [← Option.some.injEq, ← hd]
    decide +kernel
  rw [hleft]
  decide +kernel

end LinuxLikeOS
