import LinuxLikeOS.Frames

/-! # The process table, terminals and control blocks by themselves

Who runs where is spread over `process[]`, three fields of each terminal record,
the three current-terminal variables, and four fields of each control block.  A
`View` is those and nothing else.  Each kernel function either leaves the view
alone (every descriptor call and the whole console do) or acts on it in one of six
ways, and the statements about processes are proved on views.
-/
namespace LinuxLikeOS

/-- The part of the kernel that says which process belongs to which terminal, and
where it goes on. -/
@[ext]
structure View where
  process : Fin 6 → Bool
  active : Fin 3 → Bool
  basePid : Fin 3 → Int
  programPid : Fin 3 → Int
  visible : Fin 3
  executing : Fin 3
  next : Fin 3
  pid : Byte → Word
  parentId : Byte → Word
  context : Byte → Regs

namespace Kernel

/-- The view of a kernel. -/
def view (k : Kernel) : View where
  process := k.process
  active := fun t => (k.multiTerminal t).active
  basePid := fun t => (k.multiTerminal t).basePid
  programPid := fun t => (k.multiTerminal t).programPid
  visible := k.currTerminalVisible
  executing := k.currTerminalExecuting
  next := k.nextTerminalExecuting
  pid := fun b => (k.pcb b).pid
  parentId := fun b => (k.pcb b).parentId
  context := fun b => (k.pcb b).context

end Kernel

namespace View
variable (v : View)

/-! ## What the kernel does to it -/

/-- The control block index of a slot. -/
def slotOf (p : Fin 6) : Byte := pcbIndex p

/-- The slot of the executing terminal's process. -/
def current : Byte := pcbIndex (v.programPid v.executing)

/-- A launch in the slot `pid`. -/
def launch (pid : Fin 6) (regs : Regs) : View :=
  { v with
    process := Function.update v.process pid true
    active := Function.update v.active v.executing true
    programPid := Function.update v.programPid v.executing pid
    pid := Function.update v.pid (slotOf pid) (BitVec.ofNat 32 pid)
    parentId := Function.update v.parentId (slotOf pid)
      (BitVec.ofInt 32 (v.programPid v.executing))
    context := Function.update v.context (slotOf pid) regs }

/-- Terminal `t` is shown. -/
def show_ (t : Fin 3) : View := { v with visible := t }

/-- Terminal `t` is shown and made the executing one, for a shell in slot `pid`. -/
def open_ (t : Fin 3) (pid : Int) : View :=
  { v with
    visible := t
    executing := t
    active := Function.update v.active t true
    basePid := Function.update v.basePid t pid
    programPid := Function.update v.programPid t pid }

/-- The executing terminal gives up its process and is inactive. -/
def retire : View :=
  { v with
    process := fun i => if (i : Int) = v.programPid v.executing then false else v.process i
    active := Function.update v.active v.executing false }

/-- The executing terminal gives up its process and goes back to the parent of the
process in slot `slot`. -/
def giveBack (slot : Byte) : View :=
  { v with
    process := fun i => if (i : Int) = v.programPid v.executing then false else v.process i
    programPid := Function.update v.programPid v.executing
      (v.pid ((v.parentId slot).setWidth 8)).toInt }

/-- A tick to terminal `t`. -/
def tick (t : Fin 3) (regs : Regs) : View :=
  { v with
    context := Function.update v.context v.current regs
    executing := t
    next := t }

end View

/-! ## Functions that leave the view alone -/

section Quiet
variable {k k' : Kernel}

/-- The view is a part of the core. -/
theorem view_of_core (h : k'.core = k.core) : k'.view = k.view := by
  have hview : ∀ k : Kernel, k.core.view = k.view := fun _ => rfl
  rw [← hview k', h, hview]

theorem view_of_offScreen (h : k'.offScreen = k.offScreen) : k'.view = k.view :=
  view_of_core (core_of_offScreen h)

theorem view_close (fd : Word) : (Syscall.close k fd).kernel.view = k.view :=
  view_of_core (core_close fd)

/-- A call, a key or an exception is not seen in the view. -/
theorem view_call {fs : FileSystem} {e : Event} (he : e.IsCall = true) :
    (kernelStep fs k e).view = k.view :=
  unseen_call he view_of_core rfl fun _ => rfl

end Quiet

/-! ## Functions that act on the view -/

section Acting
variable {k : Kernel}

/-- A field of an updated record array is an updated field array. -/
theorem field_update {ι α β : Type} [DecidableEq ι] (f : α → β) (g : ι → α) (i : ι) (a : α) :
    (fun j => f (Function.update g i a j)) = Function.update (fun j => f (g j)) i (f a) :=
  Function.comp_update f g i a

/-- Writing a field back changes nothing. -/
theorem field_update_self {ι α β : Type} [DecidableEq ι] (f : α → β) (g : ι → α) (i : ι) :
    Function.update (fun j => f (g j)) i (f (g i)) = fun j => f (g j) :=
  Function.update_eq_self i fun j => f (g j)

theorem view_setTerminal (t : Fin 3) (w : Terminal) :
    (k.setTerminal t w).view =
      { k.view with
        active := Function.update k.view.active t w.active
        basePid := Function.update k.view.basePid t w.basePid
        programPid := Function.update k.view.programPid t w.programPid } := by
  simp only [Kernel.view, Kernel.setTerminal, field_update]

theorem view_setPcb_fields (slot : Byte) (p : Pcb) :
    (k.setPcb slot p).view =
      { k.view with
        pid := Function.update k.view.pid slot p.pid
        parentId := Function.update k.view.parentId slot p.parentId
        context := Function.update k.view.context slot p.context } := by
  simp only [Kernel.view, Kernel.setPcb, field_update]

/-- A control block that keeps its links and context keeps the view. -/
theorem view_setPcb {slot : Byte} {p : Pcb} (hpid : p.pid = (k.pcb slot).pid)
    (hparent : p.parentId = (k.pcb slot).parentId) (hctx : p.context = (k.pcb slot).context) :
    (k.setPcb slot p).view = k.view := by
  rw [view_setPcb_fields, hpid, hparent, hctx]
  simp only [Kernel.view, field_update_self Pcb.pid k.pcb, field_update_self Pcb.parentId k.pcb,
    field_update_self Pcb.context k.pcb]

/-- `active` is all that a refused `execute` may set. -/
theorem view_activateExecuting :
    k.activateExecuting.view =
      { k.view with active := Function.update k.view.active k.view.executing true } := by
  unfold Kernel.activateExecuting
  rw [view_setTerminal]
  simp only [Kernel.view, Kernel.executing,
    field_update_self Terminal.basePid k.multiTerminal k.currTerminalExecuting,
    field_update_self Terminal.programPid k.multiTerminal k.currTerminalExecuting]

theorem view_setProcess (pid : Fin 6) (b : Bool) :
    (k.setProcess (pid : Int) b).view =
      { k.view with process := Function.update k.view.process pid b } := by
  unfold Kernel.view
  rw [setProcess_fin]
  rfl

/-- A launch fills in the control block of its slot. -/
theorem pcb_launched (k : Kernel) (pid : Fin 6) (arg : CString) (regs : Regs) :
    (k.launched pid arg regs).pcb = Function.update k.pcb (View.slotOf pid)
      (Kernel.newPcb (k.pcb (View.slotOf pid)) pid (BitVec.ofInt 32 k.executing.programPid) arg
        regs) := by
  simp only [Kernel.launched, Kernel.launch, Kernel.activateExecuting, Kernel.setTerminal,
    Kernel.setProcess, Kernel.executing, Function.update_self]
  rfl

theorem view_launched (pid : Fin 6) (arg : CString) (regs : Regs) :
    (k.launched pid arg regs).view = k.view.launch pid regs := by
  have hlaunch : (k.launched pid arg regs).view =
      (((k.activateExecuting.setProcess (pid : Int) true).setPcb (pcbIndex pid)
        (Kernel.newPcb (k.pcb (pcbIndex pid)) pid (BitVec.ofInt 32 k.executing.programPid) arg
          regs)).setTerminal k.currTerminalExecuting
            { k.executing with active := true, programPid := pid }).view := by
    unfold Kernel.launched Kernel.launch Kernel.activateExecuting
    simp [Kernel.executing, Kernel.setTerminal, Kernel.setProcess, Kernel.setPcb, Kernel.view]
  rw [hlaunch, view_setTerminal, view_setPcb_fields, view_setProcess, view_activateExecuting]
  simp only [Kernel.view, View.launch, Kernel.executing, Function.update_idem,
    field_update_self Terminal.basePid k.multiTerminal k.currTerminalExecuting]
  rfl

theorem view_retire : k.halting.retire.view = k.view.retire := by
  have hretire : k.halting.retire.view =
      ((k.setProcess k.executing.programPid false).setTerminal k.currTerminalExecuting
        { k.executing with active := false }).view := rfl
  rw [hretire, view_setTerminal]
  simp only [Kernel.view, Kernel.setProcess, View.retire, Kernel.executing,
    field_update_self Terminal.basePid k.multiTerminal k.currTerminalExecuting,
    field_update_self Terminal.programPid k.multiTerminal k.currTerminalExecuting]
  rfl

theorem view_giveBack (currPid : Int) :
    (k.giveBack currPid).view = k.view.giveBack (pcbIndex currPid) := by
  have hgive : (k.giveBack currPid).view =
      ((k.setProcess k.executing.programPid false).setTerminal k.currTerminalExecuting
        { k.executing with
          programPid := (k.pcb (k.parentSlot (pcbIndex currPid))).pid.toInt }).view :=
    view_setPcb rfl rfl rfl
  rw [hgive, view_setTerminal]
  simp only [Kernel.view, Kernel.setProcess, View.giveBack, Kernel.executing, Kernel.parentSlot,
    field_update_self Terminal.basePid k.multiTerminal k.currTerminalExecuting,
    field_update_self Terminal.active k.multiTerminal k.currTerminalExecuting]
  rfl

theorem view_show (t : Fin 3) :
    ({ k.showTerminal t with jammer := true } : Kernel).followVisible.view = k.view.show_ t :=
  rfl

theorem view_openVisible (t : Fin 3) :
    (k.showTerminal t).openVisible.followVisible.view = k.view.open_ t (k.getCurrentPid + 1) := by
  have hopen : (k.showTerminal t).openVisible.followVisible.view =
      { (k.setTerminal t { k.multiTerminal t with
          active := true, basePid := k.getCurrentPid + 1, programPid := k.getCurrentPid + 1 }).view
        with visible := t, executing := t } := rfl
  rw [hopen, view_setTerminal]
  rfl

theorem view_pitHandler (regs : Regs) :
    (pitHandler k regs).1.view = k.view.tick k.tickTarget regs := by
  have hpit : (pitHandler k regs).1.view =
      { (k.saveContext regs).view with executing := k.tickTarget, next := k.tickTarget } := rfl
  rw [hpit, Kernel.saveContext, view_setPcb_fields]
  simp only [Kernel.view, View.tick, View.current, Kernel.executingSlot, Kernel.executing,
    field_update_self Pcb.pid k.pcb, field_update_self Pcb.parentId k.pcb]
  rfl

/-- The context a tick goes on with is the one in the new process's control block. -/
theorem pitHandler_context (regs : Regs) :
    (pitHandler k regs).2 =
      (pitHandler k regs).1.view.context (pitHandler k regs).1.view.current := rfl

end Acting

end LinuxLikeOS
