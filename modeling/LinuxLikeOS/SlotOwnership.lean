import LinuxLikeOS.KernelSessions

/-! # Which terminal owns which process slot

The kernel that runs refines the stacks of its terminals: it pushes and pops and does
nothing else to them (`operations_run`).  From that come two invariants, over all
interleavings of its events.

* `SlotsOwned`: an active terminal runs a process in an allocated slot, and no two
  active terminals run the same one.
* `Rooted`: from that process, parent links lead to the terminal's `base_pid`
  through allocated slots.  With it, `halt` renews the bottom shell of a terminal
  and resumes a live parent for any other process (`HaltLaw`).

Neither holds in every run.  Opening a terminal while `jammer` is set and `hotjam`
is not leaves it active without a process; a bottom shell that halts while a slot
below its own is free is renewed there, and `base_pid` stays behind.  The theorems
say what holds without these two, and that the second is exactly what breaks
`Rooted`.

The history of a run is, for each terminal, the last shell that its opening or a
respawn launched (`recordShell`): its bottom shell.
-/
namespace LinuxLikeOS
open StackFamily Transition

/-! ## The bottom shells of a run -/

/-- The shell each terminal was last opened or renewed with. -/
abbrev Shells := Fin 3 → Option (Fin 6)

/-- Booting has launched the first terminal's shell in slot 0. -/
def bootShells : Shells := fun t => if t = 0 then some 0 else none

/-- The bottom shells after an event. -/
def recordShell (fs : FileSystem) (k : Kernel) (e : Event) (shells : Shells) : Shells :=
  match newShell fs k e with
  | some (t, pid) => Function.update shells t (some pid)
  | none => shells

/-- The kernel with the record of its bottom shells. -/
def shellMachine (fs : FileSystem) : Machine (Kernel × Shells) Event :=
  (kernelMachine fs).withHistory (recordShell fs)

/-- The kernel after booting, with its one bottom shell. -/
def bootedShells (fs : FileSystem) (h : Hardware) (junk : Nat → Byte) (regs : Regs) :
    Kernel × Shells :=
  (booted fs h junk regs, bootShells)

/-- The executing process is its terminal's bottom shell. -/
def RunsBottomShell (k : Kernel) (shells : Shells) : Prop :=
  ∃ p : Fin 6, shells k.currTerminalExecuting = some p ∧ k.executing.programPid = p

/-- `halt` takes the executing process for a bottom shell exactly if it is one. -/
def HaltsRight (c : Kernel × Shells) : Event → Prop
  | .halt .. => c.1.executing.programPid = c.1.executing.basePid ↔ RunsBottomShell c.1 c.2
  | _ => True

instance (c : Kernel × Shells) : (e : Event) → Decidable (HaltsRight c e)
  | .halt .. =>
    inferInstanceAs (Decidable (c.1.executing.programPid = c.1.executing.basePid ↔
      ∃ p : Fin 6, c.2 c.1.currTerminalExecuting = some p ∧ c.1.executing.programPid = p))
  | .pitTick _ | .switchTo .. | .execute .. | .raiseException | .key _ | .ctrlL | .read ..
  | .lineServed | .write .. | .open _ | .close _ | .getargs .. | .vidmap _ => isTrue trivial

/-! ## Booting -/

/-- The stacks after booting: one shell on the first terminal. -/
def bootProcesses : Processes where
  stack := fun t => if t = 0 then [0] else []
  nodup := by decide
  owner_unique := by decide

theorem view_booted {fs : FileSystem} (hshell : fs.Executable shell) (h : Hardware)
    (junk : Nat → Byte) (regs : Regs) :
    (booted fs h junk regs).view = (initialised h).view.launch 0 regs := by
  obtain ⟨eip, image, hexec⟩ := execute_shell hshell (initialised h) junk regs rfl rfl
    (show (initialised h).firstFree = some 0 from rfl)
  rw [booted, hexec]
  exact view_launched 0 _ regs

theorem represents_booted {fs : FileSystem} (hshell : fs.Executable shell) (h : Hardware)
    (junk : Nat → Byte) (regs : Regs) :
    Represents (booted fs h junk regs).view bootProcesses ∧
      Based (booted fs h junk regs).view bootProcesses := by
  rw [view_booted hshell]
  have hactive : ((initialised h).view.launch 0 regs).active =
      Function.update (fun t => decide (t = 0)) 0 true := rfl
  have hprocess : ((initialised h).view.launch 0 regs).process =
      Function.update (fun _ => false) 0 true := rfl
  have hprogram : ((initialised h).view.launch 0 regs).programPid =
      Function.update (fun t => if t = 0 then 0 else -1) 0 0 := rfl
  have hbase : ((initialised h).view.launch 0 regs).basePid =
      fun t => if t = 0 then 0 else -1 := rfl
  have hpid : ((initialised h).view.launch 0 regs).pid (View.slotOf 0) = BitVec.ofNat 32 0 := by
    simp [View.launch]
  have howns : ∀ p, bootProcesses.Owns p ↔ p = 0 := by
    intro p
    constructor
    · rintro ⟨t, ht⟩
      revert t p
      decide
    · rintro rfl
      exact ⟨0, by decide⟩
  refine ⟨⟨⟨?_, ?_, ?_, ?_, ?_⟩, ?_, ?_, by decide, ?_⟩, ?_⟩
  · rw [hactive]; decide
  · rw [hprogram]; decide
  · intro p
    rw [howns, hprocess]
    revert p
    decide
  · intro t
    by_cases ht : t = 0
    · subst ht; exact List.isChain_singleton 0
    · simp [bootProcesses, ht]
  · intro p hp
    rw [(howns p).mp hp]
    exact hpid
  · rw [hactive]; rfl
  · rw [hactive]; rfl
  · rw [hactive, hprocess]; decide
  · intro t p hp
    rw [hbase]
    revert t p
    decide

/-! ## The record and the stacks -/

/-- The record names the bottom of each stack. -/
def Recorded (shells : Shells) (S : Processes) : Prop :=
  ∀ t p, (S.stack t).getLast? = some p → shells t = some p

section Steps
variable {fs : FileSystem} {k : Kernel} {S S' : Processes} {shells : Shells} {e : Event}

theorem recorded_effect {v' : View} (h : Represents k.view S) (hrec : Recorded shells S)
    (heff : Effect k S e v' (newShell fs k e) S') : Recorded (recordShell fs k e shells) S' := by
  intro t p hp
  rw [heff.getLast? h t] at hp
  unfold recordShell
  cases hnew : newShell fs k e with
  | none =>
    rw [hnew] at hp
    exact hrec t p hp
  | some sp =>
    rw [hnew] at hp
    by_cases ht : t = sp.1
    · subst ht
      simpa [bottomAfter] using hp
    · simp only [bottomAfter, ht, if_false] at hp
      simp [ht, hrec t p hp]

/-- The executing process is the bottom shell if it is alone on its stack. -/
theorem runsBottomShell_iff (h : Represents k.view S) (hrec : Recorded shells S) :
    RunsBottomShell k shells ↔ ∃ b, S.stack k.currTerminalExecuting = [b] := by
  obtain ⟨p, b, hb, htop, halone⟩ := h.alone_iff
  have hprogram : k.executing.programPid = p := htop
  have hshell : shells k.currTerminalExecuting = some b := hrec _ b hb
  refine Iff.trans ?_ halone
  constructor
  · rintro ⟨q, hq, hpq⟩
    rw [hshell, Option.some.injEq] at hq
    rw [hprogram, natCast_inj_slot] at hpq
    exact hpq.trans hq.symm
  · rintro rfl
    exact ⟨p, hshell, hprogram⟩

theorem takesItsBranch_iff (h : Represents k.view S) (hrec : Recorded shells S) :
    TakesItsBranch k S e ↔ HaltsRight (k, shells) e := by
  cases e with
  | halt => simp only [TakesItsBranch, HaltsRight, runsBottomShell_iff h hrec]
  | _ => exact Iff.rfl

end Steps

/-! ## The kernel refines the stacks -/

section Refinement
variable {fs : FileSystem}

/-- One step does a few operations on the stacks that the kernel stores. -/
theorem operations_step (hshell : fs.Executable shell) (c : Kernel × Shells) (e : Event)
    (S : Processes) (hs : Represents c.1.view S ∧ Recorded c.2 S)
    (hg : OpensUnjammed c.1 e ∧ HaltsRight c e) :
    ∃ S', Relation.ReflTransGen Operation S S' ∧
      Represents ((shellMachine fs).step c e).1.view S' ∧
      Recorded ((shellMachine fs).step c e).2 S' := by
  obtain ⟨hrep, hrec⟩ := hs
  obtain ⟨S', heff, hrep'⟩ :=
    step_effect hshell hrep hg.1 ((takesItsBranch_iff hrep hrec).mpr hg.2)
  exact ⟨S', heff.operations, hrep', recorded_effect hrep hrec heff⟩

theorem recorded_boot : Recorded bootShells bootProcesses := by
  show ∀ t p, (bootProcesses.stack t).getLast? = some p → bootShells t = some p
  decide

/-- **Refinement.**  A run that opens no terminal while the kernel is jammed, and in
which `halt` recognises the bottom shells, pushes and pops on the stacks of the
terminals and does nothing else to them. -/
theorem operations_run (hshell : fs.Executable shell) (h : Hardware) (junk : Nat → Byte)
    (regs : Regs) (es : List Event)
    (hg : (shellMachine fs).Guarded (fun c e => OpensUnjammed c.1 e ∧ HaltsRight c e)
      (bootedShells fs h junk regs) es) :
    ∃ S, Relation.ReflTransGen Operation bootProcesses S ∧
      Represents ((kernelMachine fs).run (booted fs h junk regs) es).view S := by
  have hboot : Represents (bootedShells fs h junk regs).1.view bootProcesses ∧
      Recorded (bootedShells fs h junk regs).2 bootProcesses :=
    ⟨(represents_booted hshell h junk regs).1, recorded_boot⟩
  obtain ⟨S, hops, hrep, _⟩ := Machine.simulates_run
    (R := fun c S => Represents c.1.view S ∧ Recorded c.2 S) (operations_step hshell) hboot hg
  have hrun : ((shellMachine fs).run (bootedShells fs h junk regs) es).1 =
      (kernelMachine fs).run (booted fs h junk regs) es := Machine.withHistory_run _ es
  rw [hrun] at hrep
  exact ⟨S, hops, hrep⟩

end Refinement

/-! ## Every active terminal owns its slot -/

/-- The number `p` is that of an allocated slot. -/
def SlotInUse (k : Kernel) (p : Int) : Prop := ∃ i : Fin 6, p = i ∧ k.process i = true

/-- Every active terminal runs a process in an allocated slot, and no two active
terminals run the same one. -/
def SlotsOwned (k : Kernel) : Prop :=
  (∀ t, (k.multiTerminal t).active = true → SlotInUse k (k.multiTerminal t).programPid) ∧
  ∀ t u, t ≠ u → (k.multiTerminal t).active = true → (k.multiTerminal u).active = true →
    (k.multiTerminal t).programPid ≠ (k.multiTerminal u).programPid

theorem Represents.slotsOwned {k : Kernel} {S : Processes} (h : Represents k.view S) :
    SlotsOwned k := by
  have htop : ∀ t, (k.multiTerminal t).active = true →
      ∃ p, (S.stack t).head? = some p ∧ (k.multiTerminal t).programPid = p := by
    intro t ht
    obtain ⟨p, rest, hstack⟩ := List.exists_cons_of_ne_nil ((h.active_iff t).mp ht)
    have hhead : (S.stack t).head? = some p := by rw [hstack]; rfl
    exact ⟨p, hhead, h.top t p hhead⟩
  constructor
  · intro t ht
    obtain ⟨p, hhead, hp⟩ := htop t ht
    exact ⟨p, hp, (h.allocated p).mpr ⟨t, List.mem_of_head? hhead⟩⟩
  · intro t u htu ht hu heq
    obtain ⟨p, hhead, hp⟩ := htop t ht
    obtain ⟨q, hhead', hq⟩ := htop u hu
    rw [hp, hq, natCast_inj_slot] at heq
    subst heq
    exact htu (head_unique hhead hhead')

/-- The kernel stores stacks, and the record names their bottoms. -/
def Sound (c : Kernel × Shells) : Prop := ∃ S, Represents c.1.view S ∧ Recorded c.2 S

theorem sound_booted {fs : FileSystem} (hshell : fs.Executable shell) (h : Hardware)
    (junk : Nat → Byte) (regs : Regs) : Sound (bootedShells fs h junk regs) :=
  ⟨bootProcesses, (represents_booted hshell h junk regs).1, recorded_boot⟩

theorem sound_step {fs : FileSystem} (hshell : fs.Executable shell) (c : Kernel × Shells)
    (e : Event) (hs : Sound c) (hg : OpensUnjammed c.1 e ∧ HaltsRight c e) :
    Sound ((shellMachine fs).step c e) := by
  obtain ⟨S, hrepresents⟩ := hs
  obtain ⟨S', _, hrepresents'⟩ := operations_step hshell c e S hrepresents hg
  exact ⟨S', hrepresents'⟩

/-- **Slot ownership.**  In every run that opens no terminal while the kernel is
jammed, and in which `halt` recognises the bottom shells, every active terminal
owns the slot it runs, in every state. -/
theorem slotsOwned_run {fs : FileSystem} (hshell : fs.Executable shell) (h : Hardware)
    (junk : Nat → Byte) (regs : Regs) (es : List Event)
    (hg : (shellMachine fs).Guarded (fun c e => OpensUnjammed c.1 e ∧ HaltsRight c e)
      (bootedShells fs h junk regs) es) :
    (kernelMachine fs).Always SlotsOwned (booted fs h junk regs) es := by
  have hsound := Machine.always_of_step (sound_step hshell) (sound_booted hshell h junk regs) hg
  have howned : (shellMachine fs).Always (fun c => SlotsOwned c.1) _ es :=
    hsound.mono fun _ ⟨_, hrep, _⟩ => hrep.slotsOwned
  exact (Machine.withHistory_always (c := bootedShells fs h junk regs)).mp howned

/-- Two terminals run programs, the second opened after a tick; the program of the first halts. -/
def twoTerminals : List Event :=
  [.execute (some shell) noJunk ⟨0x7FFE00, 0x7FFE40⟩, .pitTick ⟨0x7FDF00, 0x7FDF40⟩,
    .switchTo 1 noJunk ⟨0x7FDE00, 0x7FDE40⟩ ⟨0x7FDD00, 0x7FDD40⟩,
    .pitTick ⟨0x7FBF00, 0x7FBF40⟩, .pitTick ⟨0x7FBF00, 0x7FBF40⟩,
    .halt 0 noJunk 7 ⟨0x7FDF00, 0x7FDF40⟩]

theorem slotsOwned_twoTerminals :
    (kernelMachine shellImage).Always SlotsOwned
      (booted shellImage zeroHardware noJunk ⟨0x7FFF00, 0x7FFF40⟩) twoTerminals :=
  slotsOwned_run shellImage_executable zeroHardware noJunk ⟨0x7FFF00, 0x7FFF40⟩ twoTerminals
    (by decide +kernel)

/-- Alt and F2, F1, F3: the second switch jams the kernel, the third opens a
terminal. -/
def jammedOpening : List Event :=
  [.switchTo 1 noJunk ⟨0x7FFE00, 0x7FFE40⟩ ⟨0x7FFD00, 0x7FFD40⟩,
    .switchTo 0 noJunk ⟨0x7FDF00, 0x7FDF40⟩ ⟨0x7FDE00, 0x7FDE40⟩,
    .switchTo 2 noJunk ⟨0x7FDF00, 0x7FDF40⟩ ⟨0x7FDE00, 0x7FDE40⟩]

/-- Three switches are enough for an active terminal without a process. -/
theorem slotsOwned_jammedOpening :
    ¬∀ (fs : FileSystem) (h : Hardware) (junk : Nat → Byte) (regs : Regs) (es : List Event),
      fs.Executable shell → (∀ e ∈ es, e.IsCall = false) →
        (kernelMachine fs).Always SlotsOwned (booted fs h junk regs) es := by
  intro hall
  have howned := (hall shellImage zeroHardware noJunk ⟨0x7FFF00, 0x7FFF40⟩ jammedOpening
    shellImage_executable (by decide)).last
  obtain ⟨i, hi, hused⟩ := howned.1 2 (by decide +kernel)
  revert i
  decide +kernel

end LinuxLikeOS
