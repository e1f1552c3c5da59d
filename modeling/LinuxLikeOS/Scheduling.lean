import LinuxLikeOS.Execute

/-! # Terminals, the scheduler, exceptions and booting

`switch_terminal` runs inside the keyboard interrupt.  Showing an active terminal
only swaps the screens; showing an inactive one opens it: the terminal becomes the
executing one on the spot and a shell is executed on the interrupted process's
kernel stack.  `PIT_handler` goes round the active terminals: it saves `esp` and
`ebp` in the control block of the process it leaves and loads those of the process
it enters.

Nothing of the interrupt controller is modelled: `send_eoi` and `enable_irq` change
no field of the kernel.
-/
namespace LinuxLikeOS

/-! ## `switch_terminal` -/

namespace Kernel
variable (k : Kernel)

/-- The two `memcpy`s of `switch_terminal`: the VGA page is kept for the visible
terminal, and terminal `t` is shown. -/
def showTerminal (t : Fin 3) : Kernel :=
  let kept := memcpy k.video k.visible.terminalVidMem videoBase 4096
  { k with
    video := memcpy kept videoBase (k.multiTerminal t).terminalVidMem 4096
    currTerminalVisible := t }

/-- `update_cursor` at the visible terminal's position. -/
def followVisible : Kernel := updateCursor k k.visible.screenX k.visible.screenY

/-- The assignments with which `switch_terminal` opens the visible terminal. -/
def openVisible : Kernel :=
  let pid := k.getCurrentPid + 1
  { k.setTerminal k.currTerminalVisible
      { k.visible with active := true, basePid := pid, programPid := pid } with
    currTerminalExecuting := k.currTerminalVisible }

end Kernel

/-- `switch_terminal`; `regs` is the frame `execute` saves. -/
def switchTerminal (fs : FileSystem) (k : Kernel) (t : Fin 3) (junk : Nat → Byte) (regs : Regs) :
    Kernel × Control :=
  if t = k.currTerminalVisible then (k, .returned 0)
  else if (k.multiTerminal t).active then
    ({ k.showTerminal t with jammer := true }.followVisible, .returned 0)
  else execute fs (k.showTerminal t).openVisible.followVisible (some shell) junk regs

/-! ## `PIT_handler` -/

/-- The loop of `PIT_handler`, `n` rounds from `next_terminal_executing` on. -/
def nextActive (active : Fin 3 → Bool) : Nat → Fin 3 → Fin 3
  | 0, t => t
  | n + 1, t => if active (t + 1) then t + 1 else nextActive active n (t + 1)

namespace Kernel
variable (k : Kernel)

/-- The terminal the next tick goes to. -/
def tickTarget : Fin 3 :=
  nextActive (fun t => (k.multiTerminal t).active) 3 k.nextTerminalExecuting

/-- `PIT_handler` stores the interrupted context in the old control block. -/
def saveContext (regs : Regs) : Kernel :=
  k.setPcb k.executingSlot { k.pcb k.executingSlot with esp := regs.esp, ebp := regs.ebp }

end Kernel

/-- `PIT_handler` interrupting at `regs`, and the context it goes on with. -/
def pitHandler (k : Kernel) (regs : Regs) : Kernel × Regs :=
  let t := k.tickTarget
  let k' := { k.saveContext regs with nextTerminalExecuting := t, currTerminalExecuting := t }
  let newPcb := k'.pcb k'.executingSlot
  ({ k'.mapPhysicalMemory k'.executingSlot with tss := ⟨0x18, kernelStackTop newPcb.pid⟩ },
    newPcb.context)

/-- `raise_exception`. -/
def raiseException (k : Kernel) : Kernel := { k with exceptionFlag := true }

/-! ## Booting -/

/-- What the kernel finds when it starts: memory it does not initialise, where its
page tables are, and the clock's registers. -/
structure Hardware where
  pcb : Byte → Pcb
  video : Word → Byte
  tables : Word × Word
  rtcRegA : Byte
  rtcRegB : Byte

/-- A page table entry of zeros. -/
def Pte.zero : Pte := ⟨false, false, false, 0⟩

/-- A page directory entry of zeros. -/
def Pde.zero : Pde := ⟨false, false, false, false, 0⟩

/-- The kernel image in memory: its globals are zero but for the keyboard driver's
`cursor_x` and `cursor_y`. -/
def powerOn (h : Hardware) : Kernel where
  process := fun _ => false
  pcb := h.pcb
  multiTerminal := fun _ => ⟨false, 0, 0, 0, false, 0, 0, fun _ => 0, 0⟩
  currTerminalVisible := 0
  currTerminalExecuting := 0
  nextTerminalExecuting := 0
  jammer := false
  hotjam := false
  exceptionFlag := false
  pageDirectory := fun _ => Pde.zero
  pageTableVideo := fun _ => Pte.zero
  tables := h.tables
  tss := ⟨0x18, 0x800000⟩
  video := h.video
  cursor := 0
  cursorX := 6
  cursorY := 1
  rtcRegA := h.rtcRegA
  rtcRegB := h.rtcRegB

/-- `initial_paging`: the page of the first table, the kernel's 4MB page, and the
table of the `vidmap` pages. -/
def initialPaging (k : Kernel) : Kernel :=
  { k with
    pageDirectory := fun i =>
      if i = 0 then ⟨true, true, false, false, k.tables.1.extractLsb' 12 20⟩
      else if i = 1 then ⟨true, true, false, true, 0x400⟩
      else if i = 33 then ⟨true, true, true, false, k.tables.2.extractLsb' 12 20⟩
      else ⟨false, true, false, false, 0⟩ }

/-- `init_terminal`. -/
def initTerminal (k : Kernel) : Kernel :=
  let k' := clear k
  updateCursor
    { k' with
      currTerminalVisible := 0
      currTerminalExecuting := 0
      multiTerminal := fun t =>
        { (k'.multiTerminal t).blankBuffer with
          active := t = 0
          basePid := if t = 0 then 0 else -1
          programPid := if t = 0 then 0 else -1
          keyCount := 0
          screenX := 0
          screenY := 0
          terminalVidMem := backingPage t } } 1 1

/-- `init_PIT`. -/
def initPit (k : Kernel) : Kernel :=
  { k with currTerminalExecuting := 0, nextTerminalExecuting := 0 }

/-- The kernel before its first `execute`. -/
def initialised (h : Hardware) : Kernel :=
  initPit (initTerminal (initialPaging (intiRtc (powerOn h))))

/-- The kernel after `entry` has executed the first shell. -/
def booted (fs : FileSystem) (h : Hardware) (junk : Nat → Byte) (regs : Regs) : Kernel :=
  (execute fs (initialised h) (some shell) junk regs).1

/-! ## What the handlers can do -/

/-- **What `switch_terminal` can do**: nothing for the visible terminal; show an
active one; or open an inactive one and execute a shell there. -/
theorem switchTerminal_cases (fs : FileSystem) (k : Kernel) (t : Fin 3) (junk : Nat → Byte)
    (regs : Regs) :
    (t = k.currTerminalVisible ∧ switchTerminal fs k t junk regs = (k, .returned 0)) ∨
    (t ≠ k.currTerminalVisible ∧ (k.multiTerminal t).active = true ∧
      switchTerminal fs k t junk regs =
        ({ k.showTerminal t with jammer := true }.followVisible, .returned 0)) ∨
    (t ≠ k.currTerminalVisible ∧ (k.multiTerminal t).active = false ∧
      switchTerminal fs k t junk regs =
        execute fs (k.showTerminal t).openVisible.followVisible (some shell) junk regs) := by
  by_cases hvis : t = k.currTerminalVisible
  · exact Or.inl ⟨hvis, if_pos hvis⟩
  · cases hact : (k.multiTerminal t).active with
    | true => exact Or.inr (Or.inl ⟨hvis, rfl, by rw [switchTerminal, if_neg hvis, if_pos hact]⟩)
    | false =>
      exact Or.inr (Or.inr ⟨hvis, rfl, by
        rw [switchTerminal, if_neg hvis, if_neg (by simp [hact])]⟩)

/-- The loop ends at an active terminal, if there is one, or where it began. -/
theorem nextActive_active {active : Fin 3 → Bool} {s : Fin 3} (h : active s = true) (t : Fin 3) :
    active (nextActive active 3 t) = true := by
  -- three rounds pass every terminal, `s` included
  simp only [nextActive]
  split
  · assumption
  · split
    · assumption
    · split
      · assumption
      · fin_cases s <;> fin_cases t <;> simp_all

end LinuxLikeOS
