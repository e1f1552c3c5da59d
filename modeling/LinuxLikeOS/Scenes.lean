import LinuxLikeOS.KernelSessions

/-! # What an event does in any state

`step_effect` says what an event does while the kernel's arrays store stacks of
processes.  Here is what it does in any state at all: a `Scene` is the view of the
processes with the address space in force, the program page of the page directory and
the kernel stack in the TSS, and `Scene.Moves` is one case for each way in which an
event can change it.

`Moves` says nothing about whether its terminals own their slots: an opening may leave a
terminal without a process, and a halting bottom shell may be refused its successor.
-/
namespace LinuxLikeOS

/-! ## Views, once more -/

namespace View
variable (v : View)

/-- `get_pid` and `get_current_pid` stop at this entry of the table. -/
def firstFree : Option (Fin 6) := Fin.find? fun i => !v.process i

/-- `get_current_pid`. -/
def guess : Int :=
  match v.firstFree with
  | none => 5
  | some i => if i = 0 then 0 else (i : Int) - 1

/-- The terminal a tick goes to. -/
def tickTarget : Fin 3 := nextActive v.active 3 v.next

/-- The executing terminal is made active. -/
def activate : View := { v with active := Function.update v.active v.executing true }

/-- A process can be started, and the slots reserved for other terminals stay free. -/
def HasRoom : Prop := usedSlots v.process + 1 ≤ 3 + openTerminals v.active

instance : Decidable v.HasRoom :=
  inferInstanceAs (Decidable (usedSlots v.process + 1 ≤ 3 + openTerminals v.active))

variable {v}

theorem firstFree_eq_some {pid : Fin 6} :
    v.firstFree = some pid ↔ v.process pid = false ∧ ∀ j, j < pid → v.process j = true := by
  simp [firstFree]

end View

/-! ## Scenes -/

/-- The page directory entry of the program page of the process in slot `slot`. -/
def programPage (slot : Byte) : Pde :=
  ⟨true, true, true, true, (0x800000 + slot.setWidth 32 * 0x400000 : Word).extractLsb' 12 20⟩

/-- Who runs where, and in which address space. -/
@[ext]
structure Scene where
  view : View
  page : Pde
  stack : Word

namespace Kernel

/-- The scene of a kernel. -/
def scene (k : Kernel) : Scene := ⟨k.view, k.pageDirectory programPde, k.tss.esp0⟩

end Kernel

namespace Scene
variable (s : Scene)

def activate : Scene := { s with view := s.view.activate }

def retire : Scene := { s with view := s.view.retire }

def show_ (t : Fin 3) : Scene := { s with view := s.view.show_ t }

def open_ (t : Fin 3) : Scene := { s with view := s.view.open_ t (s.view.guess + 1) }

/-- A launch maps the program and sets the kernel stack. -/
def launch (pid : Fin 6) (regs : Regs) : Scene :=
  ⟨s.view.launch pid regs, programPage (View.slotOf pid), kernelStackTop (BitVec.ofNat 32 pid)⟩

/-- A tick maps the program of the terminal it goes to, and sets the kernel stack by the
number in its control block. -/
def tick (regs : Regs) : Scene :=
  let v := s.view.tick s.view.tickTarget regs
  ⟨v, programPage v.current, kernelStackTop (v.pid v.current)⟩

/-- The number in the control block of the parent of the process in slot `slot`. -/
def parentPid (slot : Byte) : Word := s.view.pid ((s.view.parentId slot).setWidth 8)

/-- The process in slot `slot` gives way to its parent.  The kernel stack is set last, so
not if `halt` has faulted before. -/
def leave (slot : Byte) (faulted : Bool) : Scene :=
  ⟨s.view.giveBack slot, programPage ((s.parentPid slot).setWidth 8),
    if faulted then s.stack else kernelStackTop (s.parentPid slot)⟩

end Scene

/-- The processor has gone to the page fault handler. -/
def Control.hasFaulted : Control → Bool
  | .faulted => true
  | _ => false

/-- Where the events that are about processes leave the processor. -/
def processControl (fs : FileSystem) (k : Kernel) : Event → Option Control
  | .execute command junk regs => some (execute fs k command junk regs).2
  | .halt status junk junkFd regs => some (halt fs k status junk junkFd regs).2
  | .switchTo t junk _ frame => some (switchTerminal fs k t junk frame).2
  | _ => none

/-- The event is a `halt`. -/
def Event.isHalt : Event → Bool
  | .halt .. => true
  | _ => false

/-- **What an event can do to a scene.** -/
inductive Scene.Moves (fs : FileSystem) (s : Scene) : Event → Option Control → Scene → Prop
  /-- a call, a switch to the visible terminal, or an `execute` that returns at once -/
  | stays {e : Event} {c : Option Control} (he : e.isHalt = false) : Moves fs s e c s
  | refused {command : Option CString} {junk : Nat → Byte} {regs : Regs} {v : Word} :
      Moves fs s (.execute command junk regs) (some (.returned v)) s.activate
  | launched {command : Option CString} {junk : Nat → Byte} {regs : Regs} {pid : Fin 6} {eip : Word}
      {image : List Byte} (hslot : s.view.firstFree = some pid)
      (hroom : s.view.activate.HasRoom) :
      Moves fs s (.execute command junk regs) (some (.launched pid eip image)) (s.launch pid regs)
  | ticked {regs : Regs} : Moves fs s (.pitTick regs) none (s.tick regs)
  | shown {t : Fin 3} {junk : Nat → Byte} {entry frame : Regs} {v : Word}
      (hactive : s.view.active t = true) :
      Moves fs s (.switchTo t junk entry frame) (some (.returned v)) (s.show_ t)
  /-- the `execute` of the opening has returned, so no shell is there -/
  | opened {t : Fin 3} {junk : Nat → Byte} {entry frame : Regs} {v : Word}
      (hvis : t ≠ s.view.visible) (hinactive : s.view.active t = false) :
      Moves fs s (.switchTo t junk entry frame) (some (.returned v)) (s.open_ t)
  | openedShell {t : Fin 3} {junk : Nat → Byte} {entry frame : Regs} {pid : Fin 6} {eip : Word}
      {image : List Byte} (hinactive : s.view.active t = false)
      (hslot : s.view.firstFree = some pid) (hroom : (s.open_ t).view.HasRoom) :
      Moves fs s (.switchTo t junk entry frame) (some (.launched pid eip image))
        ((s.open_ t).launch pid frame)
  | renewed {status : Byte} {junk : Nat → Byte} {junkFd : Word} {regs : Regs} {pid : Fin 6}
      {eip : Word} {image : List Byte}
      (hbase : s.view.programPid s.view.executing = s.view.basePid s.view.executing)
      (hslot : s.view.retire.firstFree = some pid) (hroom : s.view.retire.activate.HasRoom) :
      Moves fs s (.halt status junk junkFd regs) (some (.launched pid eip image))
        (s.retire.launch pid regs)
  /-- no shell has been launched, and the bottom shell goes back to its parent -/
  | notRenewed {status : Byte} {junk : Nat → Byte} {junkFd : Word} {regs : Regs} {c : Control}
      (hbase : s.view.programPid s.view.executing = s.view.basePid s.view.executing)
      (hfull : fs.Executable shell → ¬s.view.retire.activate.HasRoom)
      (hcontrol : c.launchedSlot = none) :
      Moves fs s (.halt status junk junkFd regs) (some c)
        (s.retire.activate.leave s.view.current c.hasFaulted)
  | left {status : Byte} {junk : Nat → Byte} {junkFd : Word} {regs : Regs} {c : Control}
      (hbase : s.view.programPid s.view.executing ≠ s.view.basePid s.view.executing)
      (hcontrol : c.launchedSlot = none) :
      Moves fs s (.halt status junk junkFd regs) (some c) (s.leave s.view.current c.hasFaulted)

/-! ## The scenes of the kernel's functions -/

section Functions
variable {fs : FileSystem} {k k' : Kernel}

theorem scene_of_core (h : k'.core = k.core) : k'.scene = k.scene := by
  have hscene : ∀ k : Kernel, k.core.scene = k.scene := fun _ => rfl
  rw [← hscene k', h, hscene]

theorem scene_of_offScreen (h : k'.offScreen = k.offScreen) : k'.scene = k.scene :=
  scene_of_core (core_of_offScreen h)

/-- A call, a key or an exception is not seen in the scene. -/
theorem scene_call {e : Event} (he : e.IsCall = true) : (kernelStep fs k e).scene = k.scene :=
  unseen_call he scene_of_core rfl fun _ => rfl

/-- A scene by its three parts. -/
theorem scene_eq {s : Scene} (hview : k.view = s.view) (hpage : k.pageDirectory programPde = s.page)
    (hstack : k.tss.esp0 = s.stack) : k.scene = s := by
  ext1
  · exact hview
  · exact hpage
  · exact hstack

theorem mapPhysicalMemory_page (slot : Byte) :
    (k.mapPhysicalMemory slot).pageDirectory programPde = programPage slot := by
  simp only [Kernel.mapPhysicalMemory, Function.update_self, programPage]

theorem scene_activateExecuting : k.activateExecuting.scene = k.scene.activate :=
  scene_eq view_activateExecuting rfl rfl

theorem scene_launched (pid : Fin 6) (arg : CString) (regs : Regs) :
    (k.launched pid arg regs).scene = k.scene.launch pid regs :=
  scene_eq (view_launched pid arg regs) (mapPhysicalMemory_page (k := k) _) rfl

theorem scene_retire : k.halting.retire.scene = k.scene.retire := scene_eq view_retire rfl rfl

theorem scene_openVisible (t : Fin 3) :
    (k.showTerminal t).openVisible.followVisible.scene = k.scene.open_ t :=
  scene_eq (view_openVisible t) rfl rfl

theorem scene_pitHandler (regs : Regs) : (pitHandler k regs).1.scene = k.scene.tick regs := by
  have hview := view_pitHandler (k := k) regs
  have htarget : k.tickTarget = k.view.tickTarget := rfl
  have hcurrent : (pitHandler k regs).1.view.current = (k.scene.tick regs).view.current := by
    rw [hview]
    rfl
  have hpid : (pitHandler k regs).1.view.pid = (k.scene.tick regs).view.pid := by
    rw [hview]
    rfl
  refine scene_eq hview ?_ ?_
  · have hpage : (pitHandler k regs).1.pageDirectory programPde =
        programPage (pitHandler k regs).1.view.current := mapPhysicalMemory_page (k := k) _
    rw [hpage, hcurrent]
    rfl
  · have hstack : (pitHandler k regs).1.tss.esp0 =
        kernelStackTop ((pitHandler k regs).1.view.pid (pitHandler k regs).1.view.current) := rfl
    rw [hstack, hpid, hcurrent]
    rfl

/-- `halt` behind the test for a bottom shell. -/
theorem scene_resumeParent (currPid : Int) (status junkFd : Word) :
    (resumeParent k currPid status junkFd).1.scene =
        k.scene.leave (pcbIndex currPid) (resumeParent k currPid status junkFd).2.hasFaulted ∧
      (resumeParent k currPid status junkFd).2.launchedSlot = none := by
  have hcore := core_close (k := k.giveBack currPid) junkFd
  have hview : (Syscall.close (k.giveBack currPid) junkFd).kernel.view =
      k.view.giveBack (pcbIndex currPid) :=
    (view_of_core hcore).trans (view_giveBack currPid)
  have hpage : (Syscall.close (k.giveBack currPid) junkFd).kernel.pageDirectory programPde =
      programPage ((k.scene.parentPid (pcbIndex currPid)).setWidth 8) := by
    exact (congrArg Scene.page (scene_of_core hcore)).trans (mapPhysicalMemory_page (k := k) _)
  rcases resumeParent_cases k currPid status junkFd with ⟨_, heq⟩ | ⟨_, heq⟩ <;> rw [heq]
  · exact ⟨scene_eq hview hpage (congrArg Scene.stack (scene_of_core hcore)), rfl⟩
  · exact ⟨scene_eq hview hpage rfl, rfl⟩

/-- Control goes to the parent, or to the page fault handler. -/
theorem launchedSlot_resumeParent (currPid : Int) (status junkFd : Word) :
    (resumeParent k currPid status junkFd).2.launchedSlot = none :=
  (scene_resumeParent currPid status junkFd).2

/-- A slot that `execute` has taken leaves the reserved ones alone. -/
theorem hasRoom_of_accepted {pid : Fin 6} (hroom : k.activateExecuting.tooManyProcesses = false)
    (hfree : k.firstFree = some pid) : k.view.activate.HasRoom := by
  have hactive : k.activateExecuting.view.active = k.view.activate.active :=
    congrArg View.active view_activateExecuting
  have := room_of_accepted hroom hfree
  rwa [hactive] at this

/-- With a valid shell, only want of a slot keeps `execute` from launching it. -/
theorem execute_shell_of_hasRoom (hshell : fs.Executable shell) (hjam : k.jammed = false)
    (hroom : k.view.activate.HasRoom) (junk : Nat → Byte) (regs : Regs) :
    ∃ pid eip image, execute fs k (some shell) junk regs =
      (k.launched pid ⟨[], by simp⟩ regs, .launched pid eip image) := by
  have hle := openTerminals_le k.view.activate.active
  have hlt : usedSlots k.process < 6 := by
    have : usedSlots k.process + 1 ≤ 3 + openTerminals k.view.activate.active := hroom
    omega
  obtain ⟨pid, hfree⟩ := exists_firstFree hlt
  obtain ⟨eip, image, heq⟩ := execute_shell hshell k junk regs hjam
    (tooManyProcesses_eq_false (by rw [view_activateExecuting]; exact hroom)) hfree
  exact ⟨pid, eip, image, heq⟩

/-- `execute("shell")`, not jammed, makes its terminal active or launches. -/
theorem execute_shell_cases (fs : FileSystem) (hjam : k.jammed = false) (junk : Nat → Byte)
    (regs : Regs) :
    (∃ k', k'.offScreen = k.activateExecuting.offScreen ∧
      execute fs k (some shell) junk regs = (k', .returned minusOne)) ∨
    (∃ pid arg eip image, k.view.activate.HasRoom ∧ k.firstFree = some pid ∧
      execute fs k (some shell) junk regs =
        (k.launched pid arg regs, .launched pid eip image)) := by
  have hlen : ¬shell.strlen > 128 := by decide
  unfold execute
  simp only [hjam, Bool.false_eq_true, if_false, hlen]
  cases hfind : fs.readDentryByName (parseCommand shell).1 with
  | none => exact Or.inl ⟨_, rfl, rfl⟩
  | some d =>
    rcases executeFile_cases fs k.activateExecuting d (parseCommand shell).2 junk regs with
      ⟨k', hoff, heq⟩ | ⟨pid, eip, image, hroom, hfree, heq⟩
    · exact Or.inl ⟨k', hoff, heq⟩
    · exact Or.inr ⟨pid, _, eip, image, hasRoom_of_accepted hroom hfree, hfree, heq⟩

/-- A shell that is launched has room, and takes the first free slot. -/
theorem room_of_launchedShell {fs : FileSystem} {k' : Kernel} {pid : Fin 6} {eip : Word}
    {image : List Byte} {junk : Nat → Byte} {regs : Regs} (hjam : k.jammed = false)
    (hrun : execute fs k (some shell) junk regs = (k', .launched pid eip image)) :
    k.view.activate.HasRoom ∧ k.firstFree = some pid := by
  rcases execute_shell_cases fs hjam junk regs with
    ⟨_, _, hrun'⟩ | ⟨_, _, _, _, hroom, hfree, hrun'⟩
  · rw [hrun] at hrun'
    cases hrun'
  · rw [hrun] at hrun'
    obtain ⟨_, hcontrol⟩ := Prod.mk.inj hrun'
    obtain ⟨rfl, _, _⟩ := Control.launched.inj hcontrol
    exact ⟨hroom, hfree⟩

/-- A shell that is refused leaves its terminal active, and else only what is on screen
changed. -/
theorem offScreen_refusedShell {fs : FileSystem} {k' : Kernel} {v : Word} {junk : Nat → Byte}
    {regs : Regs} (hjam : k.jammed = false)
    (hrun : execute fs k (some shell) junk regs = (k', .returned v)) :
    k'.offScreen = k.activateExecuting.offScreen := by
  rcases execute_shell_cases fs hjam junk regs with ⟨_, hoff, hrun'⟩ | ⟨_, _, _, _, _, _, hrun'⟩
  · rw [hrun] at hrun'
    obtain ⟨rfl, _⟩ := Prod.mk.inj hrun'
    exact hoff
  · rw [hrun] at hrun'
    cases hrun'

end Functions

/-! ## Every event is a move -/

section Moves
variable (fs : FileSystem) (k : Kernel)

theorem moves_execute (command : Option CString) (junk : Nat → Byte) (regs : Regs) :
    Scene.Moves fs k.scene (.execute command junk regs)
      (some (execute fs k command junk regs).2) (execute fs k command junk regs).1.scene := by
  rcases execute_cases fs k command junk regs with
    ⟨_, heq⟩ | ⟨_, k', hoff | hoff, heq⟩ | ⟨_, pid, arg, eip, image, hroom, hfree, heq⟩ <;> rw [heq]
  · exact .stays rfl
  · rw [scene_of_offScreen hoff]
    exact .stays rfl
  · rw [scene_of_offScreen hoff, scene_activateExecuting]
    exact .refused
  · rw [scene_launched]
    exact .launched hfree (hasRoom_of_accepted hroom hfree)

/-- `execute` writes no `base_pid`. -/
theorem basePid_execute (command : Option CString) (junk : Nat → Byte) (regs : Regs) :
    (execute fs k command junk regs).1.view.basePid = k.view.basePid := by
  have hmove := moves_execute fs k command junk regs
  generalize hs : (execute fs k command junk regs).1.scene = s at hmove
  have hview : (execute fs k command junk regs).1.view = s.view := congrArg Scene.view hs
  rw [hview]
  generalize some (execute fs k command junk regs).2 = c at hmove
  cases hmove with
  | stays | refused | launched => rfl

/-- Opening an inactive terminal: its `execute` may launch the shell or not. -/
theorem moves_opening (t : Fin 3) (hvis : t ≠ k.currTerminalVisible)
    (hinactive : (k.multiTerminal t).active = false)
    (junk : Nat → Byte) (entry frame : Regs) :
    let r := execute fs (k.showTerminal t).openVisible.followVisible (some shell) junk frame
    Scene.Moves fs k.scene (.switchTo t junk entry frame) (some r.2) r.1.scene := by
  intro r
  have hscene := scene_openVisible (k := k) t
  have hactivate : (k.scene.open_ t).activate = k.scene.open_ t := by
    simp only [Scene.activate, Scene.open_, View.activate, View.open_, Function.update_idem]
  cases hjam : (k.showTerminal t).openVisible.followVisible.jammed with
  | true =>
    have heq : r = ((k.showTerminal t).openVisible.followVisible, .returned 0) := by
      simp only [r, execute, hjam, if_true]
    rw [heq, hscene]
    exact .opened hvis hinactive
  | false =>
    rcases execute_shell_cases fs hjam junk frame with
      ⟨k', hoff, heq⟩ | ⟨pid, arg, eip, image, hroom, hfree, heq⟩
    · rw [show r = (k', .returned minusOne) from heq, scene_of_offScreen hoff,
        scene_activateExecuting, hscene, hactivate]
      exact .opened hvis hinactive
    · rw [show r = (_, .launched pid eip image) from heq, scene_launched, hscene]
      refine .openedShell hinactive hfree ?_
      have hview : (k.showTerminal t).openVisible.followVisible.view.activate =
          (k.scene.open_ t).activate.view := congrArg View.activate (congrArg Scene.view hscene)
      rw [hview, hactivate] at hroom
      exact hroom

theorem moves_switchTo (t : Fin 3) (junk : Nat → Byte) (entry frame : Regs) :
    Scene.Moves fs k.scene (.switchTo t junk entry frame)
      (some (switchTerminal fs k t junk frame).2) (switchTerminal fs k t junk frame).1.scene := by
  rcases switchTerminal_cases fs k t junk frame with
    ⟨_, heq⟩ | ⟨_, hactive, heq⟩ | ⟨hvis, hinactive, heq⟩ <;> rw [heq]
  · exact .stays rfl
  · exact .shown hactive
  · exact moves_opening fs k t hvis hinactive junk entry frame

theorem moves_halt (status : Byte) (junk : Nat → Byte) (junkFd : Word) (regs : Regs) :
    Scene.Moves fs k.scene (.halt status junk junkFd regs)
      (some (halt fs k status junk junkFd regs).2) (halt fs k status junk junkFd regs).1.scene := by
  have hjam : k.halting.retire.jammed = false := by simp [Kernel.jammed, Kernel.retire]
  have hretire : k.halting.retire.view = k.view.retire := view_retire
  rcases halt_cases fs k status junk junkFd regs with
    ⟨hbase, pid, arg, eip, image, hrun, heq⟩ | ⟨hbase, k', v, hrun, heq⟩ | ⟨hbase, heq⟩
  · -- the bottom shell is renewed
    rw [heq, scene_launched, scene_retire]
    obtain ⟨hroom, hfree⟩ := room_of_launchedShell hjam hrun
    rw [hretire] at hroom
    have hslot : k.halting.retire.view.firstFree = some pid := hfree
    rw [hretire] at hslot
    exact .renewed hbase hslot hroom
  · -- the shell is refused, and `halt` goes on
    have hscene : k'.scene = k.scene.retire.activate := by
      rw [scene_of_offScreen (offScreen_refusedShell hjam hrun), scene_activateExecuting,
        scene_retire]
    obtain ⟨hleave, hcontrol⟩ :=
      scene_resumeParent (k := k') k.executing.programPid (exitStatus k status) junkFd
    rw [heq, hleave, hscene]
    refine .notRenewed hbase (fun hshell hroom => ?_) hcontrol
    obtain ⟨_, _, _, hrun'⟩ := execute_shell_of_hasRoom hshell hjam
      (by rw [hretire]; exact hroom) junk regs
    rw [hrun] at hrun'
    cases hrun'
  · obtain ⟨hleave, hcontrol⟩ :=
      scene_resumeParent (k := k.halting) k.executing.programPid (exitStatus k status) junkFd
    rw [heq, hleave]
    exact .left hbase hcontrol

/-- `halt` does not change terminals. -/
theorem executing_halt (status : Byte) (junk : Nat → Byte) (junkFd : Word) (regs : Regs) :
    (halt fs k status junk junkFd regs).1.currTerminalExecuting = k.currTerminalExecuting := by
  have hmove := moves_halt fs k status junk junkFd regs
  generalize hs : (halt fs k status junk junkFd regs).1.scene = s at hmove
  have hexec : (halt fs k status junk junkFd regs).1.currTerminalExecuting = s.view.executing :=
    congrArg (fun s => s.view.executing) hs
  rw [hexec]
  generalize some (halt fs k status junk junkFd regs).2 = c at hmove
  cases hmove with
  | stays he => cases he
  | renewed | notRenewed | left => rfl

/-- **Every event is a move**, in every state. -/
theorem scene_moves (e : Event) :
    Scene.Moves fs k.scene e (processControl fs k e) (kernelStep fs k e).scene := by
  cases e with
  | pitTick regs =>
    rw [kernelStep, scene_pitHandler]
    exact .ticked
  | switchTo t junk entry frame => exact moves_switchTo fs k t junk entry frame
  | execute command junk regs => exact moves_execute fs k command junk regs
  | halt status junk junkFd regs => exact moves_halt fs k status junk junkFd regs
  | raiseException | key | ctrlL | read | lineServed | write | «open» | close | getargs | vidmap =>
    rw [scene_call rfl]
    exact .stays rfl

end Moves

end LinuxLikeOS
