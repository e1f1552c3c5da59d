import LinuxLikeOS.KernelRun

/-! # What the operations leave alone

The descriptor calls, `getargs`, the keyboard and the console change the screens,
the lines, the descriptors, the clock's registers and the two flags `jammer` and
`hotjam`.  `Kernel.core` is the kernel without these, and `core_call` says that such
a call does not touch it.  Whatever is a function of the core is left alone with it:
who runs where, the page tables, the exception flag.

`Kernel.shared` is the part of the core that belongs to no process: the video page
table, the directory entry that leads to it, and the exception flag.  Three operations
change it: `vidmap`, `raise_exception` and `halt`.
-/
namespace LinuxLikeOS

/-- A control block without its descriptors. -/
def Pcb.core (p : Pcb) : Pcb := { p with fd := fun _ => .cleared }

/-- The kernel without what the calls work on. -/
def Kernel.core (k : Kernel) : Kernel :=
  { k.offConsole with
    jammer := false
    hotjam := false
    rtcRegA := 0
    rtcRegB := 0
    pcb := fun b => (k.pcb b).core }

section Calls
variable {k k' : Kernel}

theorem core_of_offConsole (h : k'.offConsole = k.offConsole) : k'.core = k.core := by
  have hcore : ∀ k : Kernel, k.offConsole.core = k.core := fun _ => rfl
  rw [← hcore k', h, hcore]

theorem core_of_offScreen (h : k'.offScreen = k.offScreen) : k'.core = k.core :=
  core_of_offConsole (offConsole_of_offScreen h)

theorem core_setPcb {slot : Byte} {p : Pcb} (hp : p.core = (k.pcb slot).core) :
    (k.setPcb slot p).core = k.core := by
  have hpcb : (fun b => ((k.setPcb slot p).pcb b).core) = fun b => (k.pcb b).core := by
    funext b
    by_cases hb : b = slot
    · subst hb; simpa [Kernel.setPcb] using hp
    · simp [Kernel.setPcb, hb]
  unfold Kernel.core
  rw [hpcb]
  rfl

@[simp] theorem core_setFd (slot : Byte) (i : Fin 8) (e : FdEntry) :
    (k.setFd slot i e).core = k.core :=
  core_setPcb rfl

@[simp] theorem core_advance (slot : Byte) (i : Fin 8) (n : Word) :
    (k.advance slot i n).core = k.core :=
  core_setFd slot i _

@[simp] theorem core_intiRtc : (intiRtc k).core = k.core := rfl

@[simp] theorem keyPressed_offConsole (k : Kernel) (c : Byte) :
    (keyPressed k c).offConsole = k.offConsole :=
  (getChar_offConsole _ c).trans (offConsole_of_offScreen (putc_offScreen k c))

@[simp] theorem ctrlLPressed_offConsole (k : Kernel) :
    (ctrlLPressed k).offConsole = k.offConsole := by
  have hcursor : ∀ (k : Kernel) (x y : Word),
      ({ k with cursorX := x, cursorY := y } : Kernel).offConsole = k.offConsole :=
    fun _ _ _ => rfl
  rw [ctrlLPressed, hcursor, openTerminal_offConsole]
  exact offConsole_of_offScreen (clear_offScreen k)

@[simp] theorem serveLine_offConsole (k : Kernel) :
    (serveLine k).offConsole = k.offConsole := by
  unfold serveLine
  split
  · exact clearVisibleLine_offConsole k
  · rfl

@[simp] theorem runClose_offConsole (k : Kernel) (op : FileOperation) :
    (runClose k op).offConsole = k.offConsole := by
  cases op with
  | stdin | stdout => exact closeTerminal_offConsole k
  | file | directory | rtc => rfl

/-- `read_terminal` changes the console and, behind a newline, `jammer`. -/
theorem ofTerminal_offConsole (k : Kernel) (old : Nat → Byte) (nbytes : Word)
    (touched : List (Byte × Fin 8)) :
    ∃ j, (CallResult.ofTerminal k touched (readTerminal k old nbytes)).kernel.offConsole =
      { k.offConsole with jammer := j } := by
  rcases readTerminal_cases k old nbytes with
    ⟨_, h⟩ | ⟨_, _, _, h⟩ | ⟨_, _, _, h⟩ | ⟨_, _, h⟩ <;> rw [h]
  · exact ⟨k.jammer, rfl⟩
  · exact ⟨false, rfl⟩
  · exact ⟨false, clearVisibleLine_offConsole { k with jammer := false }⟩
  · exact ⟨k.jammer, clearVisibleLine_offConsole k⟩

theorem core_ofTerminal (old : Nat → Byte) (nbytes : Word) (touched : List (Byte × Fin 8)) :
    (CallResult.ofTerminal k touched (readTerminal k old nbytes)).kernel.core = k.core := by
  have hcore : ∀ k : Kernel, k.offConsole.core = k.core := fun _ => rfl
  obtain ⟨j, hj⟩ := ofTerminal_offConsole k old nbytes touched
  rw [← hcore, hj]
  rfl

theorem core_writeTerminal (buf : Nat → Byte) (nbytes : Word) :
    (writeTerminal k buf nbytes).1.core = k.core := by
  have hcore : ∀ k : Kernel, k.offConsole.core = k.core := fun _ => rfl
  rw [← hcore, writeTerminal_offConsole]
  rfl

theorem core_read (fs : FileSystem) (fd buf : Word) (old : Nat → Byte) (nbytes : Word) :
    (Syscall.read fs k fd buf old nbytes).kernel.core = k.core :=
  read_keeps (P := fun k' => k'.core = k.core) rfl core_advance (core_ofTerminal old nbytes [])
    (core_writeTerminal old nbytes) fd buf

theorem core_write (fd buf : Word) (old : Nat → Byte) (nbytes : Word) :
    (Syscall.write k fd buf old nbytes).kernel.core = k.core :=
  write_keeps (P := fun k' => k'.core = k.core) rfl (core_ofTerminal old nbytes [])
    (core_writeTerminal old nbytes) (fun _ => rfl) fd buf

theorem core_open (fs : FileSystem) (filename : Option CString) :
    (Syscall.open fs k filename).kernel.core = k.core :=
  open_keeps (P := fun k' => k'.core = k.core) rfl (core_setFd k.executingSlot)
    (fun i e => core_intiRtc.trans (core_setFd k.executingSlot i e)) filename

theorem core_close (fd : Word) : (Syscall.close k fd).kernel.core = k.core :=
  close_keeps (P := fun k' => k'.core = k.core) rfl
    (fun op i => (core_setFd k.executingSlot i .cleared).trans
      (core_of_offConsole (runClose_offConsole k op))) fd

/-- The events that are neither ticks, nor of terminals or processes. -/
def Event.IsCall : Event → Bool
  | .pitTick _ | .switchTo .. | .execute .. | .halt .. => false
  | _ => true

/-- **A call leaves the core alone**, but for `vidmap` and `raise_exception`. -/
theorem core_call {fs : FileSystem} {e : Event} (he : e.IsCall = true)
    (hraise : e ≠ .raiseException) (hvidmap : ∀ screenStart, e ≠ .vidmap screenStart) :
    (kernelStep fs k e).core = k.core := by
  cases e with
  | pitTick | switchTo | execute | halt => cases he
  | raiseException => exact absurd rfl hraise
  | key c => exact core_of_offConsole (keyPressed_offConsole k c)
  | ctrlL => exact core_of_offConsole (ctrlLPressed_offConsole k)
  | read fd buf old nbytes => exact core_read fs fd buf old nbytes
  | lineServed => exact core_of_offConsole (serveLine_offConsole k)
  | write fd buf text nbytes => exact core_write fd buf text nbytes
  | «open» filename => exact core_open fs filename
  | close fd => exact core_close fd
  | getargs buf nbytes => exact congrArg Kernel.core (getargs_kernel buf nbytes)
  | vidmap screenStart => exact absurd rfl (hvidmap screenStart)

/-- The pointer passes the checks of `vidmap`, and the store through it does not fault. -/
def VidmapAccepts (k : Kernel) (screenStart : Word) : Prop :=
  screenStart ≠ 0 ∧ ¬(screenStart < programImgStart ∨ programImgEnd < screenStart) ∧
    k.storeFaults screenStart = false

instance (k : Kernel) (screenStart : Word) : Decidable (VidmapAccepts k screenStart) :=
  inferInstanceAs (Decidable (_ ∧ _))

theorem vidmap_accepted {screenStart : Word} (h : VidmapAccepts k screenStart) :
    Syscall.vidmap k screenStart =
      ⟨{ k with pageTableVideo :=
          mapVideo k.pageTableVideo k.currTerminalExecuting k.currTerminalVisible },
        some 0, wordBytes (vidmapAddress k.currTerminalExecuting), []⟩ := by
  obtain ⟨hnull, hrange, hstore⟩ := h
  rw [Syscall.vidmap, if_neg hnull, if_neg hrange, if_neg (by rw [hstore]; decide)]

/-- Otherwise `vidmap` returns -1, or it faults at its store and does not return. -/
theorem vidmap_refused {screenStart : Word} (h : ¬VidmapAccepts k screenStart) :
    Syscall.vidmap k screenStart =
      ⟨k, if screenStart < programImgStart ∨ programImgEnd < screenStart then some minusOne
        else none, [], []⟩ := by
  unfold Syscall.vidmap
  by_cases hnull : screenStart = 0
  · rw [if_pos hnull, hnull]
    rfl
  · rw [if_neg hnull]
    by_cases hrange : screenStart < programImgStart ∨ programImgEnd < screenStart
    · rw [if_pos hrange, if_pos hrange]
      rfl
    · have hstore : k.storeFaults screenStart = true := by
        rw [← Bool.not_eq_false]
        exact fun hstore => h ⟨hnull, hrange, hstore⟩
      rw [if_neg hrange, if_pos hstore, if_neg hrange]

/-- A `vidmap` that is not accepted leaves the kernel alone. -/
theorem vidmap_refused_kernel {screenStart : Word} (h : ¬VidmapAccepts k screenStart) :
    (Syscall.vidmap k screenStart).kernel = k := by
  rw [vidmap_refused h]

/-- **What a call is not seen by**: anything that sees only the core, and of the core neither
what `raise_exception` sets nor the page table of `vidmap`. -/
theorem unseen_call {α : Type} {see : Kernel → α} {fs : FileSystem} {e : Event}
    (he : e.IsCall = true) (hcore : ∀ {k k' : Kernel}, k'.core = k.core → see k' = see k)
    (hraise : see (raiseException k) = see k)
    (hvideo : ∀ table, see { k with pageTableVideo := table } = see k) :
    see (kernelStep fs k e) = see k := by
  by_cases hexception : e = .raiseException
  · rw [hexception]
    exact hraise
  · by_cases hvidmap : ∃ screenStart, e = .vidmap screenStart
    · obtain ⟨screenStart, rfl⟩ := hvidmap
      by_cases haccepts : VidmapAccepts k screenStart
      · simp only [kernelStep, vidmap_accepted haccepts]
        exact hvideo _
      · simp only [kernelStep, vidmap_refused_kernel haccepts]
    · exact hcore (core_call he hexception fun screenStart heq => hvidmap ⟨screenStart, heq⟩)

end Calls

/-! ## The state that belongs to no process -/

/-- The video page table, its directory entry and the exception flag. -/
structure Shared where
  videoTable : Fin 1024 → Pte
  videoPde : Pde
  tables : Word × Word
  exceptionFlag : Bool

namespace Kernel

/-- The shared state of a kernel. -/
def shared (k : Kernel) : Shared :=
  ⟨k.pageTableVideo, k.pageDirectory videoPde, k.tables, k.exceptionFlag⟩

end Kernel

section Shared
variable {k k' : Kernel}

theorem shared_of_core (h : k'.core = k.core) : k'.shared = k.shared := by
  have hshared : ∀ k : Kernel, k.core.shared = k.shared := fun _ => rfl
  rw [← hshared k', h, hshared]

theorem shared_of_offScreen (h : k'.offScreen = k.offScreen) : k'.shared = k.shared :=
  shared_of_core (core_of_offScreen h)

theorem shared_launched (pid : Fin 6) (arg : CString) (regs : Regs) :
    (k.launched pid arg regs).shared = k.shared := rfl

theorem shared_execute (fs : FileSystem) (command : Option CString) (junk : Nat → Byte)
    (regs : Regs) : (execute fs k command junk regs).1.shared = k.shared := by
  rcases execute_cases fs k command junk regs with
    ⟨_, heq⟩ | ⟨_, k', hoff | hoff, heq⟩ | ⟨_, pid, arg, eip, image, _, _, heq⟩ <;> rw [heq]
  · exact shared_of_offScreen hoff
  · exact (shared_of_offScreen hoff).trans rfl
  · exact shared_launched pid arg regs

theorem shared_switchTerminal (fs : FileSystem) (t : Fin 3) (junk : Nat → Byte) (regs : Regs) :
    (switchTerminal fs k t junk regs).1.shared = k.shared := by
  rcases switchTerminal_cases fs k t junk regs with
    ⟨_, heq⟩ | ⟨_, _, heq⟩ | ⟨_, _, heq⟩ <;> rw [heq]
  · rfl
  · exact (shared_execute fs (some shell) junk regs).trans rfl

theorem shared_pitHandler (regs : Regs) : (pitHandler k regs).1.shared = k.shared := rfl

theorem shared_resumeParent (currPid : Int) (status junkFd : Word) :
    (resumeParent k currPid status junkFd).1.shared = k.shared := by
  have hgive : (k.giveBack currPid).shared = k.shared := rfl
  have hclose := shared_of_core (core_close (k := k.giveBack currPid) junkFd)
  rcases resumeParent_cases k currPid status junkFd with ⟨_, heq⟩ | ⟨_, heq⟩ <;> rw [heq]
  · exact hclose.trans hgive
  · exact hclose.trans hgive

/-- `halt` unmaps the video page of the executing terminal and takes the exception
flag. -/
theorem shared_halt (fs : FileSystem) (status : Byte) (junk : Nat → Byte) (junkFd : Word)
    (regs : Regs) : (halt fs k status junk junkFd regs).1.shared = k.halting.shared := by
  have hretire : k.halting.retire.shared = k.halting.shared := rfl
  have hexec := shared_execute (k := k.halting.retire) fs (some shell) junk regs
  rcases halt_cases fs k status junk junkFd regs with
    ⟨_, pid, arg, eip, image, hrun, heq⟩ | ⟨_, k', v, hrun, heq⟩ | ⟨_, heq⟩ <;> rw [heq]
  · rw [hrun] at hexec
    exact hexec.trans hretire
  · -- the new shell was refused
    rw [hrun] at hexec
    exact (shared_resumeParent _ _ _).trans (hexec.trans hretire)
  · exact shared_resumeParent _ _ _

end Shared

end LinuxLikeOS
