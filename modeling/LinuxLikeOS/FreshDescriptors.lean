import LinuxLikeOS.SlotReservation
import LinuxLikeOS.DescriptorIsolation

/-! # The descriptors a new process starts with

`execute` sets descriptors 0 and 1 of the control block it fills in and leaves 2 to 7 as
they are.  They are closed if the last process in the slot left them closed, and `halt`
clears all eight on its way to the parent.  A bottom shell does not come that way: its
`halt` gives up the slot and executes a new shell, mostly in the same slot, whose
descriptors are those the old one had open.

The invariant is that the files of free slots are closed (`FreeSlotsClosed`).  Two events
can break it: such a `halt`, and an `open` by a process whose slot is not marked as in use,
which is one of a terminal whose `base_pid` went wrong before (`KeepsFilesClosed`).  A call that
stores through a pointer out of the program page might write the descriptors itself
(`StoresInPage`).
-/
namespace LinuxLikeOS
open Transition

/-! ## Descriptors in use -/

namespace Kernel
variable (k : Kernel)

/-- The `flag` fields of the descriptors. -/
def flags (b : Byte) (i : Fin 8) : Word := ((k.pcb b).fd i).flag

/-- Descriptors 2 to 7 of the control block `b` are closed. -/
def NoFiles (b : Byte) : Prop := ∀ i : Fin 8, 2 ≤ i → k.flags b i = 0

/-- Exactly descriptors 0 and 1 of the control block `b` are in use. -/
def FreshTable (b : Byte) : Prop := ∀ i : Fin 8, k.flags b i = if i < 2 then 1 else 0

instance (b : Byte) : Decidable (k.NoFiles b) :=
  inferInstanceAs (Decidable (∀ i : Fin 8, 2 ≤ i → k.flags b i = 0))

instance (b : Byte) : Decidable (k.FreshTable b) :=
  inferInstanceAs (Decidable (∀ i : Fin 8, k.flags b i = if i < 2 then 1 else 0))

end Kernel

theorem noNul_nil : (0 : Byte) ∉ ([] : List Byte) := List.not_mem_nil

/-- A control block of zeros. -/
def Pcb.zeroed : Pcb := ⟨fun _ => .cleared, 0, 0, 0, 0, 0, 0, 0, ⟨[], noNul_nil⟩⟩

/-- The process that an event launches has exactly descriptors 0 and 1. -/
def LaunchesFresh (fs : FileSystem) (k : Kernel) (e : Event) : Prop :=
  ∀ pid, (processControl fs k e).bind Control.launchedSlot = some pid →
    (kernelStep fs k e).FreshTable (View.slotOf pid)

/-- The event opens a file that is there. -/
def OpensFile (fs : FileSystem) : Event → Prop
  | .open (some fname) => fs.readDentryByName fname ≠ none
  | _ => False

/-- A bottom shell that halts, and is to be renewed, has closed its files; and a process
that opens a file is in a slot that is in use. -/
def KeepsFilesClosed (fs : FileSystem) (k : Kernel) : Event → Prop
  | .halt .. => k.executing.programPid = k.executing.basePid → k.view.retire.activate.HasRoom →
      k.NoFiles k.executingSlot
  | .open (some fname) => fs.readDentryByName fname ≠ none →
      ∃ p : Fin 6, k.executing.programPid = p ∧ k.process p = true
  | _ => True

instance (fs : FileSystem) (k : Kernel) : (e : Event) → Decidable (KeepsFilesClosed fs k e)
  | .halt .. => inferInstanceAs (Decidable (_ → k.view.retire.activate.HasRoom → _))
  | .open (some fname) => inferInstanceAs (Decidable (fs.readDentryByName fname ≠ none →
      ∃ p : Fin 6, k.executing.programPid = p ∧ k.process p = true))
  | .open none | .pitTick _ | .switchTo .. | .execute .. | .raiseException | .key _ | .ctrlL
  | .read .. | .lineServed | .write .. | .close _ | .getargs .. | .vidmap _ => isTrue trivial

/-! ## What the calls do to the flags -/

section Calls
variable {fs : FileSystem} {k k' : Kernel}

theorem flags_of_pcb (h : k'.pcb = k.pcb) : k'.flags = k.flags := by
  unfold Kernel.flags
  rw [h]

theorem flags_of_offConsole (h : k'.offConsole.pcb = k.offConsole.pcb) : k'.flags = k.flags :=
  flags_of_pcb h

theorem flags_setFd (slot : Byte) (i : Fin 8) (e : FdEntry) (b : Byte) (j : Fin 8) :
    (k.setFd slot i e).flags b j = if b = slot ∧ j = i then e.flag else k.flags b j := by
  by_cases h : b = slot ∧ j = i
  · obtain ⟨rfl, rfl⟩ := h
    simp [Kernel.flags, Kernel.setFd, Kernel.setPcb]
  · rw [if_neg h]
    exact congrArg FdEntry.flag (setFd_other (not_and_or.mp h))

/-- A driver moves the position of a descriptor, and leaves it open. -/
theorem flags_advance (slot : Byte) (i : Fin 8) (n : Word) :
    (k.advance slot i n).flags = k.flags := by
  funext b j
  rw [Kernel.advance, flags_setFd]
  split
  · rename_i h
    obtain ⟨rfl, rfl⟩ := h
    rfl
  · rfl

theorem flags_readTerminal (old : Nat → Byte) (nbytes : Word) :
    (CallResult.ofTerminal k [] (readTerminal k old nbytes)).kernel.flags = k.flags := by
  obtain ⟨_, hterminal⟩ := ofTerminal_offConsole k old nbytes []
  exact flags_of_offConsole ((congrArg Kernel.pcb hterminal).trans rfl)

theorem flags_writeTerminal (old : Nat → Byte) (nbytes : Word) :
    (writeTerminal k old nbytes).1.flags = k.flags :=
  flags_of_offConsole ((congrArg Kernel.pcb (writeTerminal_offConsole k old nbytes)).trans rfl)

theorem flags_read (fd buf : Word) (old : Nat → Byte) (nbytes : Word) :
    (Syscall.read fs k fd buf old nbytes).kernel.flags = k.flags :=
  read_keeps (P := fun k' => k'.flags = k.flags) rfl flags_advance
    (flags_readTerminal old nbytes) (flags_writeTerminal old nbytes) fd buf

theorem flags_write (fd buf : Word) (old : Nat → Byte) (nbytes : Word) :
    (Syscall.write k fd buf old nbytes).kernel.flags = k.flags :=
  write_keeps (P := fun k' => k'.flags = k.flags) rfl (flags_readTerminal old nbytes)
    (flags_writeTerminal old nbytes) (fun _ => rfl) fd buf

/-- `close` closes one descriptor, or none. -/
theorem flags_close (fd : Word) (b : Byte) (i : Fin 8) :
    (Syscall.close k fd).kernel.flags b i = k.flags b i ∨
      (Syscall.close k fd).kernel.flags b i = 0 := by
  refine close_keeps (P := fun k' => k'.flags b i = k.flags b i ∨ k'.flags b i = 0) (Or.inl rfl)
    (fun op j => ?_) fd
  have hrun : (runClose k op).flags = k.flags :=
    flags_of_offConsole (congrArg Kernel.pcb (runClose_offConsole k op))
  rw [flags_setFd, hrun]
  split
  · exact Or.inr rfl
  · exact Or.inl rfl

/-- `open` changes a descriptor of the executing process, if it has found its file. -/
theorem flags_open (fname : CString) :
    (Syscall.open fs k (some fname)).kernel.flags = k.flags ∨
      fs.readDentryByName fname ≠ none ∧
        ∀ b, b ≠ k.executingSlot → ∀ i,
          (Syscall.open fs k (some fname)).kernel.flags b i = k.flags b i := by
  simp only [Syscall.open]
  cases hfind : fs.readDentryByName fname with
  | none => exact Or.inl rfl
  | some d =>
    cases hfree : freeFd (k.pcb k.executingSlot).fd with
    | none => exact Or.inl rfl
    | some j =>
      refine Or.inr ⟨Option.some_ne_none d, fun b hb i => ?_⟩
      have hset := flags_setFd (k := k) k.executingSlot j (openedEntry d) b i
      rw [if_neg fun h => hb h.1] at hset
      rw [← hset]
      dsimp only
      split
      · rfl
      · split <;> rfl

theorem flags_vidmap (screenStart : Word) :
    (Syscall.vidmap k screenStart).kernel.flags = k.flags :=
  vidmap_keeps (P := fun k' => k'.flags = k.flags) rfl (fun _ => rfl) screenStart

/-- **A call leaves descriptors in use or closes them**, unless it opens a file. -/
theorem flags_call (fs : FileSystem) {e : Event} (he : e.IsCall = true) :
    (∀ b i, (kernelStep fs k e).flags b i = k.flags b i ∨ (kernelStep fs k e).flags b i = 0) ∨
      OpensFile fs e ∧ ∀ b, b ≠ k.executingSlot → ∀ i,
        (kernelStep fs k e).flags b i = k.flags b i := by
  have hkept : (kernelStep fs k e).flags = k.flags → ∀ b i,
      (kernelStep fs k e).flags b i = k.flags b i ∨ (kernelStep fs k e).flags b i = 0 :=
    fun h b i => Or.inl (congrFun (congrFun h b) i)
  have hconsole : ∀ {k' : Kernel}, k'.offConsole = k.offConsole → k'.flags = k.flags :=
    fun h => flags_of_offConsole (congrArg Kernel.pcb h)
  cases e with
  | pitTick | switchTo | execute | halt => cases he
  | raiseException => exact Or.inl (hkept rfl)
  | key c => exact Or.inl (hkept (hconsole (keyPressed_offConsole k c)))
  | ctrlL => exact Or.inl (hkept (hconsole (ctrlLPressed_offConsole k)))
  | read fd buf old nbytes => exact Or.inl (hkept (flags_read fd buf old nbytes))
  | lineServed => exact Or.inl (hkept (hconsole (serveLine_offConsole k)))
  | write fd buf text nbytes => exact Or.inl (hkept (flags_write fd buf text nbytes))
  | «open» filename =>
    cases filename with
    | none => exact Or.inl (hkept rfl)
    | some fname => exact (flags_open fname).imp hkept id
  | close fd => exact Or.inl (flags_close fd)
  | getargs buf nbytes => exact Or.inl (hkept (congrArg Kernel.flags (getargs_kernel buf nbytes)))
  | vidmap screenStart => exact Or.inl (hkept (flags_vidmap screenStart))

end Calls

/-! ## The files of free slots -/

/-- Free slots have no open files. -/
def FreeSlotsClosed (k : Kernel) : Prop :=
  ∀ p : Fin 6, k.process p = false → k.NoFiles (View.slotOf p)

section Slots
variable {fs : FileSystem} {k k' : Kernel}

/-- Closing descriptors and taking slots keeps the free ones closed. -/
theorem FreeSlotsClosed.mono (h : FreeSlotsClosed k)
    (hprocess : ∀ p : Fin 6, k'.process p = false → k.process p = false)
    (hflags : ∀ b i, k'.flags b i = k.flags b i ∨ k'.flags b i = 0) : FreeSlotsClosed k' := by
  intro p hp i hi
  rcases hflags (View.slotOf p) i with hkept | hclosed
  · rw [hkept]
    exact h p (hprocess p hp) i hi
  · exact hclosed

theorem FreeSlotsClosed.of_eq (h : FreeSlotsClosed k) (hprocess : k'.process = k.process)
    (hpcb : k'.pcb = k.pcb) : FreeSlotsClosed k' :=
  h.mono (fun p hp => by rwa [hprocess] at hp)
    fun b i => Or.inl (congrFun (congrFun (flags_of_pcb hpcb) b) i)

theorem FreeSlotsClosed.of_offScreen (h : FreeSlotsClosed k) (hoff : k'.offScreen = k.offScreen) :
    FreeSlotsClosed k' :=
  have hprocess : k'.offScreen.process = k.offScreen.process := congrArg Kernel.process hoff
  have hpcb : k'.offScreen.pcb = k.offScreen.pcb := congrArg Kernel.pcb hoff
  h.of_eq hprocess hpcb

/-- A launch sets descriptors 0 and 1 of the slot it takes. -/
theorem flags_launched (pid : Fin 6) (arg : CString) (regs : Regs) (b : Byte) (i : Fin 8) :
    (k.launched pid arg regs).flags b i =
      if b = View.slotOf pid ∧ i < 2 then 1 else k.flags b i := by
  have hpcb := pcb_launched k pid arg regs
  by_cases hb : b = View.slotOf pid
  · subst hb
    simp only [Kernel.flags, hpcb, Function.update_self, Kernel.newPcb, true_and]
    fin_cases i <;> rfl
  · simp [Kernel.flags, hpcb, hb]

/-- `execute` launches with closed files, and leaves the free slots closed. -/
theorem FreeSlotsClosed.execute (h : FreeSlotsClosed k) (fs : FileSystem)
    (command : Option CString) (junk : Nat → Byte) (regs : Regs) :
    FreeSlotsClosed (execute fs k command junk regs).1 ∧
      ∀ pid, (execute fs k command junk regs).2.launchedSlot = some pid →
        (execute fs k command junk regs).1.FreshTable (View.slotOf pid) := by
  rcases execute_cases fs k command junk regs with
    ⟨_, heq⟩ | ⟨_, k', hoff | hoff, heq⟩ | ⟨_, pid, arg, eip, image, _, hfree, heq⟩ <;> rw [heq]
  · exact ⟨h, fun _ hpid => by cases hpid⟩
  · exact ⟨h.of_offScreen hoff, fun _ hpid => by cases hpid⟩
  · have hactivate : FreeSlotsClosed k.activateExecuting := h.of_eq rfl rfl
    exact ⟨hactivate.of_offScreen hoff, fun _ hpid => by cases hpid⟩
  · have hclosed := h pid (firstFree_eq_some.mp hfree).1
    constructor
    · intro p hp i hi
      rw [flags_launched, if_neg fun hnew => by omega]
      refine h p ?_ i hi
      have hprocess : (k.launched pid arg regs).process = Function.update k.process pid true :=
        setProcess_fin k.activateExecuting pid true
      by_cases hpid : p = pid
      · rw [hprocess, hpid, Function.update_self] at hp
        cases hp
      · rwa [hprocess, Function.update_of_ne hpid] at hp
    · intro q hq i
      obtain rfl : pid = q := Option.some.inj hq
      rw [flags_launched]
      by_cases hi : i < 2
      · rw [if_pos ⟨rfl, hi⟩, if_pos hi]
      · rw [if_neg fun hnew => hi hnew.2, if_neg hi]
        exact hclosed i (by omega)

/-- `halt` behind the test for a bottom shell closes the files of the slot it gives back. -/
theorem freeSlotsClosed_resumeParent {p : Fin 6} (hprogram : k.executing.programPid = p)
    (hothers : ∀ q : Fin 6, q ≠ p → k.process q = false → k.NoFiles (View.slotOf q))
    (status junkFd : Word) : FreeSlotsClosed (resumeParent k p status junkFd).1 := by
  have hgive : FreeSlotsClosed (k.giveBack p) := by
    intro q hq i hi
    have hflags : (k.giveBack p).flags (View.slotOf q) i =
        if q = p then 0 else k.flags (View.slotOf q) i := by
      by_cases hqp : q = p
      · subst hqp
        simp only [Kernel.flags, Kernel.giveBack, Kernel.setPcb, View.slotOf, if_true,
          Function.update_self]
        rfl
      · have hne : View.slotOf q ≠ pcbIndex p := fun heq => hqp (slotOf_inj.mp heq)
        simp only [Kernel.flags, Kernel.giveBack, Kernel.setPcb, if_neg hqp,
          Function.update_of_ne hne]
        rfl
    rw [hflags]
    split
    · rfl
    · rename_i hqp
      refine hothers q hqp ?_ i hi
      have hprocess : (k.giveBack p).process = Function.update k.process p false := by
        show (k.setProcess k.executing.programPid false).process = _
        rw [hprogram, setProcess_fin]
      rwa [hprocess, Function.update_of_ne hqp] at hq
  have hclosed : FreeSlotsClosed (Syscall.close (k.giveBack p) junkFd).kernel := by
    refine hgive.mono (fun q hq => ?_) (flags_close junkFd)
    have hview : (Syscall.close (k.giveBack p) junkFd).kernel.process = (k.giveBack p).process :=
      congrArg View.process (view_close junkFd)
    rwa [hview] at hq
  rcases resumeParent_cases k p status junkFd with ⟨_, heq⟩ | ⟨_, heq⟩ <;> rw [heq]
  · exact hclosed
  · exact hclosed.of_eq rfl rfl

theorem process_retire {p : Fin 6} (hprogram : k.executing.programPid = p) :
    k.halting.retire.process = Function.update k.process p false := by
  show (k.setProcess k.executing.programPid false).process = _
  rw [hprogram, setProcess_fin]

/-- Without the slot of a bottom shell, the free slots are closed if the shell's files are. -/
theorem freeSlotsClosed_retire {p : Fin 6} (h : FreeSlotsClosed k)
    (hprogram : k.executing.programPid = p) (hclosed : k.NoFiles (View.slotOf p)) :
    FreeSlotsClosed k.halting.retire := by
  intro q hq
  by_cases hqp : q = p
  · rw [hqp]
    exact hclosed
  · rw [process_retire hprogram, Function.update_of_ne hqp] at hq
    exact h q hq

/-- A bottom shell that is to be renewed gives up its slot with its files closed. -/
theorem freeSlotsClosed_halt (h : FreeSlotsClosed k) (hin : k.view.InTable) (status : Byte)
    (junk : Nat → Byte) (junkFd : Word) (regs : Regs)
    (hkeeps : k.executing.programPid = k.executing.basePid → k.view.retire.activate.HasRoom →
      k.NoFiles k.executingSlot) :
    FreeSlotsClosed (halt fs k status junk junkFd regs).1 ∧
      ∀ pid, (halt fs k status junk junkFd regs).2.launchedSlot = some pid →
        (halt fs k status junk junkFd regs).1.FreshTable (View.slotOf pid) := by
  obtain ⟨p, hprogram⟩ : ∃ p : Fin 6, k.executing.programPid = p := hin.programs _ hin.executing
  have hslot : k.executingSlot = View.slotOf p := by
    rw [Kernel.executingSlot, hprogram]
    rfl
  have hjam : k.halting.retire.jammed = false := by simp [Kernel.jammed, Kernel.retire]
  -- control that goes to the parent launches nothing
  have hparent : ∀ k' : Kernel, k'.executing.programPid = p →
      (∀ q : Fin 6, q ≠ p → k'.process q = false → k'.NoFiles (View.slotOf q)) →
      FreeSlotsClosed (resumeParent k' p (exitStatus k status) junkFd).1 ∧
        ∀ pid, (resumeParent k' p (exitStatus k status) junkFd).2.launchedSlot = some pid →
          (resumeParent k' p (exitStatus k status) junkFd).1.FreshTable (View.slotOf pid) := by
    intro k' hprogram' hothers
    refine ⟨freeSlotsClosed_resumeParent hprogram' hothers _ _, fun pid hpid => ?_⟩
    rw [launchedSlot_resumeParent] at hpid
    cases hpid
  rcases halt_cases fs k status junk junkFd regs with
    ⟨hbase, pid, arg, eip, image, hrun, heq⟩ | ⟨hbase, k', v, hrun, heq⟩ | ⟨hbase, heq⟩
  · have hroom := (room_of_launchedShell hjam hrun).1
    rw [view_retire] at hroom
    have hclosed := hkeeps hbase hroom
    rw [hslot] at hclosed
    have hexec := (freeSlotsClosed_retire h hprogram hclosed).execute fs (some shell) junk regs
    rw [hrun] at hexec
    rw [heq]
    exact hexec
  · -- the shell is refused, and the slot is given back as any other
    have hoff := offScreen_refusedShell hjam hrun
    have hprocess : k'.process = k.halting.retire.process :=
      (congrArg Kernel.process hoff).trans rfl
    have hflags : k'.flags = k.halting.retire.flags :=
      flags_of_pcb ((congrArg Kernel.pcb hoff).trans rfl)
    have hview : k'.view = k.view.retire.activate := by
      rw [view_of_offScreen hoff, view_activateExecuting, view_retire]
      rfl
    have hprogram' : k'.executing.programPid = p :=
      (congrArg (fun v : View => v.programPid v.executing) hview).trans hprogram
    rw [heq, hprogram]
    refine hparent k' hprogram' fun q hqp hq => ?_
    rw [hprocess, process_retire hprogram, Function.update_of_ne hqp] at hq
    have hclosed := h q hq
    unfold Kernel.NoFiles at hclosed ⊢
    rw [hflags]
    exact hclosed
  · rw [heq, hprogram]
    exact hparent k.halting hprogram fun q _ hq => h q hq

end Slots

/-! ## Over whole runs -/

/-- The invariant: free slots are closed, and the processes are in the table. -/
structure CleanSlots (k : Kernel) : Prop where
  closed : FreeSlotsClosed k
  inTable : k.view.InTable
  reserved : k.view.Reserved

section Runs
variable {fs : FileSystem} {k : Kernel}

/-- A call opens files in slots that are in use. -/
theorem CleanSlots.closed_call (h : CleanSlots k) {e : Event} (he : e.IsCall = true)
    (hkeeps : KeepsFilesClosed fs k e) : FreeSlotsClosed (kernelStep fs k e) := by
  have hprocess : (kernelStep fs k e).process = k.process := congrArg View.process (view_call he)
  rcases flags_call (k := k) fs he with hkept | ⟨hopens, hothers⟩
  · exact h.closed.mono (fun p hp => by rwa [hprocess] at hp) hkept
  · intro p hp i hi
    rw [hprocess] at hp
    cases e with
    | «open» filename =>
      cases filename with
      | none => cases hopens
      | some fname =>
        obtain ⟨q, hprogram, hused⟩ := hkeeps hopens
        have hne : View.slotOf p ≠ k.executingSlot := by
          intro heq
          rw [Kernel.executingSlot, hprogram] at heq
          rw [slotOf_inj.mp heq, hused] at hp
          cases hp
        rw [hothers _ hne]
        exact h.closed p hp i hi
    | _ => cases hopens

/-- **One event launches with closed files, and leaves the free slots closed.** -/
theorem CleanSlots.event (h : CleanSlots k) (e : Event) (hkeeps : KeepsFilesClosed fs k e) :
    FreeSlotsClosed (kernelStep fs k e) ∧ LaunchesFresh fs k e := by
  cases e with
  | pitTick regs =>
    refine ⟨h.closed.mono (fun _ hp => hp) fun b i => Or.inl ?_, fun _ hpid => by cases hpid⟩
    by_cases hb : b = k.executingSlot
    · subst hb
      simp only [kernelStep, pitHandler, Kernel.flags, Kernel.mapPhysicalMemory,
        Kernel.saveContext, Kernel.setPcb, Function.update_self]
    · simp only [kernelStep, pitHandler, Kernel.flags, Kernel.mapPhysicalMemory,
        Kernel.saveContext, Kernel.setPcb, Function.update_of_ne hb]
  | switchTo t junk entry frame =>
    unfold LaunchesFresh
    simp only [kernelStep, processControl, Option.bind_some]
    rcases switchTerminal_cases fs k t junk frame with
      ⟨_, heq⟩ | ⟨_, _, heq⟩ | ⟨_, _, heq⟩ <;> rw [heq]
    · exact ⟨h.closed, fun _ hpid => by cases hpid⟩
    · exact ⟨h.closed.of_eq rfl rfl, fun _ hpid => by cases hpid⟩
    · have hshown : FreeSlotsClosed (k.showTerminal t).openVisible.followVisible :=
        h.closed.of_eq rfl rfl
      exact hshown.execute fs (some shell) junk frame
  | execute command junk regs => exact h.closed.execute fs command junk regs
  | halt status junk junkFd regs =>
    exact freeSlotsClosed_halt h.closed h.inTable status junk junkFd regs hkeeps
  | raiseException | key | ctrlL | read | lineServed | write | «open» | close | getargs | vidmap =>
    exact ⟨h.closed_call rfl hkeeps, fun _ hpid => by cases hpid⟩

theorem CleanSlots.step (h : CleanSlots k) (e : Event) (hkeeps : KeepsFilesClosed fs k e) :
    CleanSlots (kernelStep fs k e) :=
  have hmove := scene_moves fs k e
  ⟨(h.event e hkeeps).1, View.InTable.moves (s := k.scene) h.inTable h.reserved hmove,
    View.Reserved.moves (s := k.scene) h.reserved hmove⟩

end Runs

/-- The kernel before its first `execute`, with control blocks of zeros. -/
theorem cleanSlots_initialised {h : Hardware} (hzero : ∀ b, h.pcb b = Pcb.zeroed) :
    CleanSlots (initialised h) where
  closed := by
    intro p _ i _
    have hpcb : (initialised h).pcb = h.pcb := rfl
    rw [Kernel.flags, hpcb, hzero]
    rfl
  inTable := inTable_initialised fun b => by rw [hzero]; rfl
  reserved := reserved_initialised h

/-- **Fresh descriptors.**  With control blocks of zeros at boot, the first shell starts with
exactly descriptors 0 and 1; and in every run in which calls store into the program page, no
bottom shell that is to be renewed halts with an open file, and no process opens one in a slot
that is not in use, so does every process that is launched. -/
theorem launchesFresh_run (fs : FileSystem) (h : Hardware) (hzero : ∀ b, h.pcb b = Pcb.zeroed)
    (junk : Nat → Byte) (regs : Regs) (es : List Event)
    (hkeeps : (kernelMachine fs).Guarded (fun k e => KeepsFilesClosed fs k e ∧ StoresInPage fs k e)
      (booted fs h junk regs) es) :
    (∀ pid, (execute fs (initialised h) (some shell) junk regs).2.launchedSlot = some pid →
      (booted fs h junk regs).FreshTable (View.slotOf pid)) ∧
    (kernelMachine fs).Guarded (LaunchesFresh fs) (booted fs h junk regs) es := by
  have hinit := cleanSlots_initialised hzero
  have hexec := hinit.closed.execute fs (some shell) junk regs
  have hmove := moves_execute fs (initialised h) (some shell) junk regs
  have hboot : CleanSlots (booted fs h junk regs) :=
    ⟨hexec.1, View.InTable.moves (s := (initialised h).scene) hinit.inTable hinit.reserved hmove,
      reserved_booted fs h junk regs⟩
  exact ⟨hexec.2, Machine.guarded_of_step (fun _ e hk he => CleanSlots.step hk e he)
    (fun _ e hk he => (CleanSlots.event hk e he).2) hboot (Machine.guarded_and.mp hkeeps).1⟩

/-- A program opens a file, reads it and halts, and so does the next one in its slot, which opens
none; then the shell halts, with no file open. -/
def tidyPrograms : List Event :=
  [.execute (some shell) noJunk ⟨0x7FDF00, 0x7FDF40⟩, .open (some shell),
    .read 2 0x8100000 noJunk 16, .halt 0 noJunk 7 ⟨0x7FBE00, 0x7FBE40⟩,
    .execute (some shell) noJunk ⟨0x7FDF00, 0x7FDF40⟩,
    .halt 0 noJunk 7 ⟨0x7FBE00, 0x7FBE40⟩, .halt 0 noJunk 7 ⟨0x7FDF00, 0x7FDF40⟩]

theorem launchesFresh_tidyPrograms :
    (∀ pid, (execute shellImage (initialised zeroHardware) (some shell) noJunk
        ⟨0x7FFF00, 0x7FFF40⟩).2.launchedSlot = some pid →
      (booted shellImage zeroHardware noJunk ⟨0x7FFF00, 0x7FFF40⟩).FreshTable (View.slotOf pid)) ∧
    (kernelMachine shellImage).Guarded (LaunchesFresh shellImage)
      (booted shellImage zeroHardware noJunk ⟨0x7FFF00, 0x7FFF40⟩) tidyPrograms :=
  launchesFresh_run shellImage zeroHardware (fun _ => rfl) noJunk ⟨0x7FFF00, 0x7FFF40⟩ tidyPrograms
    (by decide +kernel)

/-- The first shell opens a file and halts; the shell that replaces it has that file open. -/
theorem launchesFresh_untidyShell :
    ¬∀ (fs : FileSystem) (h : Hardware) (junk : Nat → Byte) (regs : Regs) (es : List Event)
      (e : Event), (∀ b, h.pcb b = Pcb.zeroed) →
        LaunchesFresh fs ((kernelMachine fs).run (booted fs h junk regs) es) e := by
  intro hall
  have hfresh := hall shellImage zeroHardware noJunk ⟨0x7FFF00, 0x7FFF40⟩ [.open (some shell)]
    (.halt 0 noJunk 7 ⟨0x7FDF00, 0x7FDF40⟩) (fun _ => rfl) 0 (by decide +kernel)
  revert hfresh
  decide +kernel

end LinuxLikeOS
