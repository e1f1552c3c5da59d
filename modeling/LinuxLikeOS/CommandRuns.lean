import LinuxLikeOS.FilePrinting
import LinuxLikeOS.DescriptorAllocation
import LinuxLikeOS.SingleTerminal
import LinuxLikeOS.ArgumentDelivery
import LinuxLikeOS.HaltFrame

/-! # From a command to its status

A shell executes a command; the program is launched in the slot above, makes its calls, and
halts; the shell goes on with its status.  While there is one terminal, no bottom shell halts with
an open file, and the kernel stores and loads inside the program page only, every launch with
`hotjam` down gives the program the machine to itself and fresh descriptors (`Session.launched`).
So what is known of a program by itself is known of a command: it shows its text, its status is
what `execute` returns to the shell, and of the processes nothing is left (`command_runs`).
-/
namespace LinuxLikeOS
open Transition CallingPrograms

/-! ## One terminal, and no stray descriptors -/

/-- The event does not switch terminals, and is not the `halt` of a bottom shell with an open
file. -/
def Tidy (k : Kernel) (e : Event) : Prop :=
  e.isSwitch = false ∧
    (e.isHalt = true → k.executing.programPid = k.executing.basePid → k.NoFiles k.executingSlot)

instance (k : Kernel) (e : Event) : Decidable (Tidy k e) :=
  inferInstanceAs (Decidable (_ ∧ (_ → _ → _)))

/-- The slots in use are 0 to `n`, free slots are clean, and the first terminal is visible. -/
structure Session (k : Kernel) (n : Nat) : Prop where
  stack : SingleStack k.view n
  clean : CleanSlots k
  visible : k.currTerminalVisible = 0

/-- Only a switch shows another terminal. -/
theorem visible_moves {fs : FileSystem} {s s' : Scene} {e : Event} {c : Option Control}
    (hmove : s.Moves fs e c s') (hswitch : e.isSwitch = false) :
    s'.view.visible = s.view.visible := by
  cases hmove with
  | shown | opened | openedShell => cases hswitch
  | stays | refused | launched | ticked | renewed | notRenewed | left => rfl

namespace Session
variable {fs : FileSystem} {k k' : Kernel} {n : Nat}

theorem executing_zero (h : Session k n) : k.currTerminalExecuting = 0 := h.stack.executing

theorem programPid (h : Session k n) : k.executing.programPid = n := by
  rw [Kernel.executing, h.executing_zero]
  exact h.stack.program

/-- In a session a process that opens a file is in the table. -/
theorem keepsFilesClosed (h : Session k n) {e : Event} (he : Tidy k e) :
    KeepsFilesClosed fs k e := by
  cases e with
  | halt => exact fun hbase _ => he.2 rfl hbase
  | «open» filename =>
    cases filename with
    | none => trivial
    | some fname =>
      have hdepth := h.stack.depth
      intro _
      exact ⟨⟨n, by omega⟩, h.programPid, (h.stack.allocated _).mpr (Nat.le_refl n)⟩
  | _ => trivial

theorem step (hshell : fs.Executable shell) (h : Session k n) {e : Event} (he : Tidy k e) :
    ∃ m, Session (kernelStep fs k e) m := by
  have hmove := scene_moves fs k e
  obtain ⟨m, hstack⟩ := SingleStack.moves (s := k.scene) h.stack hshell hmove he.1
  exact ⟨m, hstack, h.clean.step e (h.keepsFilesClosed he),
    (visible_moves hmove he.1).trans h.visible⟩

theorem executingSlot (h : Session k n) : k.executingSlot = pcbIndex n := by
  rw [Kernel.executingSlot, h.programPid]

/-- The process that runs has the machine to itself. -/
theorem alone (h : Session k n) (hjammer : k.jammer = false) (hhotjam : k.hotjam = false) :
    Alone k where
  visible := h.visible.trans h.executing_zero.symm
  guessed := h.stack.stackOfDepth.picked
  jammer := hjammer
  hotjam := hhotjam
  active := (h.stack.active _).mpr h.executing_zero
  others t ht := by
    rw [← Bool.not_eq_true]
    exact fun hactive => ht (((h.stack.active t).mp hactive).trans h.executing_zero.symm)

end Session

/-- Since boot, with control blocks of zeros, every event has been tidy, and the kernel has stored
for its callers and loaded inside the program page only. -/
def OneTerminal (fs : FileSystem) (k : Kernel) : Prop :=
  ∃ (h : Hardware) (junk : Nat → Byte) (regs : Regs) (es : List Event),
    (∀ b, h.pcb b = Pcb.zeroed) ∧
      FillsPage fs (initialised h) (.execute (some shell) junk regs) ∧
      (kernelMachine fs).Guarded (fun k e => Tidy k e ∧ FillsPage fs k e)
        (booted fs h junk regs) es ∧
      k = (kernelMachine fs).run (booted fs h junk regs) es

theorem session_booted {fs : FileSystem} (hshell : fs.Executable shell) {h : Hardware}
    (hzero : ∀ b, h.pcb b = Pcb.zeroed) (junk : Nat → Byte) (regs : Regs) :
    Session (booted fs h junk regs) 0 where
  stack := singleStack_booted hshell h junk regs
  clean := (cleanSlots_initialised hzero).step (.execute (some shell) junk regs) trivial
  visible :=
    visible_moves (s := (initialised h).scene) (moves_execute fs _ (some shell) junk regs) rfl

namespace OneTerminal
variable {fs : FileSystem} {k : Kernel}

theorem session (hshell : fs.Executable shell) (hk : OneTerminal fs k) : ∃ n, Session k n := by
  obtain ⟨h, junk, regs, es, hzero, -, htidy, rfl⟩ := hk
  have hinv := Machine.always_of_step (M := kernelMachine fs) (I := fun k => ∃ n, Session k n)
    (fun _ _ ⟨_, hk⟩ he => hk.step hshell he.1) ⟨0, session_booted hshell hzero junk regs⟩ htidy
  exact hinv.last

theorem step (hk : OneTerminal fs k) {e : Event} (he : Tidy k e) (hpage : FillsPage fs k e) :
    OneTerminal fs (kernelStep fs k e) := by
  obtain ⟨h, junk, regs, es, hzero, hboot, htidy, rfl⟩ := hk
  refine ⟨h, junk, regs, es ++ [e], hzero, hboot, ?_, ?_⟩
  · rw [Machine.guarded_append]
    exact ⟨htidy, ⟨he, hpage⟩, trivial⟩
  · rw [Machine.run_append]
    rfl

/-- Ticks, and calls that store into the page. -/
theorem run (hk : OneTerminal fs k) {es : List Event}
    (hkinds : ∀ e ∈ es, (∃ regs, e = .pitTick regs) ∨ ∃ c : UserCall, e = c.event)
    (hstores : (kernelMachine fs).Guarded (StoresInPage fs) k es) :
    OneTerminal fs ((kernelMachine fs).run k es) := by
  induction es generalizing k with
  | nil => exact hk
  | cons e es ih =>
    have hquiet : Tidy k e ∧ LoadsInPage fs k e := by
      rcases hkinds e List.mem_cons_self with ⟨_, rfl⟩ | ⟨c, rfl⟩
      · exact ⟨⟨rfl, fun he => by cases he⟩, Nat.zero_le _⟩
      · cases c <;> exact ⟨⟨rfl, fun he => by cases he⟩, Nat.zero_le _⟩
    exact ih (hk.step hquiet.1 ⟨hstores.1, hquiet.2⟩)
      (fun e' he' => hkinds e' (List.mem_cons_of_mem _ he')) hstores.2

end OneTerminal

/-! ## What is left of a process -/

/-- The kernel without the processes and the address spaces: the screens, the lines, and the two
flags of the console. -/
def Kernel.console (k : Kernel) : Kernel :=
  { k.offProcess with
    process := fun _ => false
    multiTerminal := fun t =>
      { k.multiTerminal t with active := true, basePid := 0, programPid := 0 }
    exceptionFlag := false
    pageTableVideo := fun _ => Pte.zero }

theorem moveTo_console (k : Kernel) (t : Fin 3) (x y : Int) :
    (k.moveTo t x y).console = k.console.moveTo t x y := by
  have hterminals : (fun u => { (k.moveTo t x y).multiTerminal u with
      active := true, basePid := 0, programPid := 0 }) =
      (k.console.moveTo t x y).multiTerminal := by
    funext u
    by_cases hu : u = t
    · subst hu
      simp [Kernel.moveTo, Kernel.setTerminal, Kernel.console]
    · simp [Kernel.moveTo, Kernel.setTerminal, Kernel.console, hu]
  unfold Kernel.console
  rw [hterminals]
  rfl

theorem setVideo_console (k : Kernel) (v : Word → Byte) :
    (k.setVideo v).console = k.console.setVideo v := rfl

theorem drawChar_console (k : Kernel) (t : Fin 3) (base erase : Word) (c : Byte) :
    (drawChar k t base erase c).console = drawChar k.console t base erase c := by
  have hx : (k.console.multiTerminal t).screenX = (k.multiTerminal t).screenX := rfl
  have hy : (k.console.multiTerminal t).screenY = (k.multiTerminal t).screenY := rfl
  unfold drawChar scrollAt
  simp only [hx, hy]
  repeat' split
  all_goals simp only [moveTo_console, setVideo_console]
  all_goals rfl

theorem putcChar_console (k : Kernel) (c : Byte) :
    (putcChar k c).console = putcChar k.console c := by
  show syncCursor (putcCell k c).console = _
  rw [putcCell, drawChar_console]
  rfl

/-- A text is shown the same, whatever the processes are. -/
theorem puts_console (k : Kernel) (text : List Byte) :
    (puts k text).console = puts k.console text := by
  have hputc : ∀ (k : Kernel) c, (putc k c).console = putc k.console c := by
    intro k c
    unfold putc
    split
    · show syncCursor (putcChar (putcChar (putcChar (putcChar k 0x20) 0x20) 0x20) 0x20).console = _
      simp only [putcChar_console]
    · exact putcChar_console k c
  induction text generalizing k with
  | nil => rfl
  | cons c text ih =>
    show (puts (putc k c) text).console = puts (putc k.console c) text
    rw [ih, hputc]

/-- Another process in a terminal changes nothing on the console. -/
theorem setTerminal_console {k : Kernel} {t : Fin 3} {v : Terminal}
    (hv : { v with active := true, basePid := 0, programPid := 0 } =
      { k.multiTerminal t with active := true, basePid := 0, programPid := 0 }) :
    (k.setTerminal t v).console = k.console := by
  have hterminals : (fun u => { (k.setTerminal t v).multiTerminal u with
      active := true, basePid := 0, programPid := 0 }) = k.console.multiTerminal := by
    funext u
    by_cases hu : u = t
    · subst hu
      simp only [Kernel.setTerminal, Function.update_self]
      exact hv
    · simp only [Kernel.setTerminal, Function.update_of_ne hu]
      rfl
  unfold Kernel.console
  rw [hterminals]
  rfl

theorem launched_console (k : Kernel) (pid : Fin 6) (arg : CString) (regs : Regs) :
    (k.launched pid arg regs).console = k.console := by
  have hlaunch : (k.launched pid arg regs).console =
      (k.activateExecuting.setTerminal k.currTerminalExecuting
        { k.activateExecuting.executing with programPid := pid }).console := rfl
  have hactivate : k.activateExecuting.console = k.console := setTerminal_console rfl
  rw [hlaunch]
  refine (setTerminal_console ?_).trans hactivate
  rfl

theorem giveBack_console (k : Kernel) (currPid : Int) :
    (k.giveBack currPid).console = k.console := by
  have hgive : (k.giveBack currPid).console =
      (k.setTerminal k.currTerminalExecuting { k.executing with
        programPid := (k.pcb (k.parentSlot (pcbIndex currPid))).pid.toInt }).console := rfl
  rw [hgive]
  refine setTerminal_console ?_
  rfl

/-- `close` of a descriptor that is not open. -/
theorem close_closed {k : Kernel} {fd : Word}
    (h : ∀ i, fdIndex fd = some i → 2 ≤ i → (k.descriptors i).flag = 0) :
    (Syscall.close k fd).ret = some minusOne ∧ (Syscall.close k fd).kernel = k := by
  unfold Syscall.close
  cases hfd : fdIndex fd with
  | none => exact ⟨rfl, rfl⟩
  | some i =>
    by_cases hlow : i < 2
    · simp only [hlow, if_true]
      exact ⟨rfl, rfl⟩
    · have hflag : ((k.pcb k.executingSlot).fd i).flag = 0 := h i hfd (not_lt.mp hlow)
      simp only [hlow, hflag, if_true, if_false]
      exact ⟨rfl, rfl⟩

/-! ## A program is launched -/

/-- Descriptors 0 and 1 are the terminal's, the others are closed, and nothing has been
written. -/
structure Process.Fresh (p : Process) : Prop where
  text : p.text = []
  stdin : p.fds 0 = ⟨some .stdin, 0, 0, 1⟩
  stdout : p.fds 1 = ⟨some .stdout, 0, 0, 1⟩
  closed : ∀ i, 2 ≤ i → (p.fds i).flag = 0

theorem Process.Fresh.ready {p : Process} (h : p.Fresh) : p.Ready where
  console := ⟨by rw [h.stdout]; decide, by rw [h.stdout]⟩
  free := ⟨2, freeFd_eq_some_iff.mpr ⟨le_refl _, h.closed 2 (le_refl _), fun _ hj hlt =>
    absurd hj (not_le.mpr hlt)⟩⟩

namespace Session
variable {fs : FileSystem} {k k' : Kernel} {n : Nat} {command : CString} {junk : Nat → Byte}
  {regs : Regs} {pid : Fin 6} {eip : Word} {image : List Byte}

/-- The kernel a command launches in. -/
theorem launched_eq
    (hexec : execute fs k (some command) junk regs = (k', .launched pid eip image)) :
    k.jammed = false ∧ k.firstFree = some pid ∧
      k' = k.launched pid (parseCommand command).2 regs := by
  rcases execute_cases fs k (some command) junk regs with
    ⟨_, heq⟩ | ⟨_, _, _, heq⟩ | ⟨hjam, pid', arg, _, _, _, hfree, heq⟩
  · rw [hexec] at heq
    cases heq
  · rw [hexec] at heq
    cases heq
  · rw [hexec] at heq
    obtain ⟨rfl, hcontrol⟩ := Prod.mk.inj heq
    obtain ⟨rfl, _, _⟩ := Control.launched.inj hcontrol
    refine ⟨hjam, hfree, ?_⟩
    -- the argument is that of the command
    rcases args_execute fs k (some command) junk regs with ⟨hnone, _⟩ | ⟨pid'', c, hsome, hc, hargs⟩
    · rw [hexec] at hnone
      cases hnone
    · rw [hexec] at hsome hargs
      cases hsome
      cases hc
      rw [args_launched] at hargs
      have harg := congrFun hargs (View.slotOf pid)
      rw [Function.update_self, Function.update_self] at harg
      rw [harg]

/-- What the process that a command launches starts with. -/
structure Launched (k k' : Kernel) (n : Nat) (command : CString) (regs : Regs) : Prop where
  session : Session k' (n + 1)
  alone : Alone k'
  fresh : k'.runningProcess.Fresh
  arg : (k'.pcb k'.executingSlot).arg = (parseCommand command).2
  parent : (k'.pcb k'.executingSlot).parentContext = regs
  others : ∀ b, b ≠ k'.executingSlot → k'.pcb b = k.pcb b
  exceptionFlag : k'.exceptionFlag = k.exceptionFlag
  console : k'.console = k.console

/-- **A command launches its program with the machine to itself** and fresh descriptors. -/
theorem launched (hshell : fs.Executable shell) (h : Session k n) (hhotjam : k.hotjam = false)
    (hexec : execute fs k (some command) junk regs = (k', .launched pid eip image)) :
    Launched k k' n command regs := by
  obtain ⟨hjam, hfree, rfl⟩ := launched_eq hexec
  have hpid : (pid : Nat) = n + 1 := h.stack.firstFree_eq hfree
  have hsession : Session (k.launched pid (parseCommand command).2 regs) (n + 1) := by
    obtain ⟨m, hm⟩ := h.step (e := .execute (some command) junk regs) hshell
      ⟨rfl, fun he => by cases he⟩
    rw [kernelStep, hexec] at hm
    have hprogram :
        (k.launched pid (parseCommand command).2 regs).view.programPid 0 = (pid : Int) := by
      rw [view_launched]
      show Function.update k.view.programPid k.view.executing (pid : Int) 0 = _
      rw [h.stack.executing, Function.update_self]
    have hdepth := hm.stack.program.symm.trans hprogram
    obtain rfl : m = n + 1 := by omega
    exact hm
  have hjammer : k.jammer = false := by
    simpa [Kernel.jammed, hhotjam] using hjam
  have hslot : (k.launched pid (parseCommand command).2 regs).executingSlot = View.slotOf pid := by
    rw [hsession.executingSlot, View.slotOf, hpid]
  have hpcb := pcb_launched k pid (parseCommand command).2 regs
  have hown := congrFun hpcb (View.slotOf pid)
  rw [Function.update_self] at hown
  refine ⟨hsession, hsession.alone hjammer hhotjam, ?_, ?_, ?_, ?_, rfl,
    launched_console k pid _ regs⟩
  · have hfresh :=
      (@CleanSlots.event fs k h.clean (.execute (some command) junk regs) trivial).2 pid
        (by simp only [processControl, hexec]; rfl)
    rw [kernelStep, hexec] at hfresh
    have hfds : (k.launched pid (parseCommand command).2 regs).runningProcess.fds = _ :=
      congrArg Pcb.fd (hslot ▸ hown)
    refine ⟨rfl, ?_, ?_, fun i hi => ?_⟩
    · rw [hfds]
      rfl
    · rw [hfds]
      rfl
    · have hflag := hfresh i
      rw [if_neg (not_lt.mpr hi), Kernel.flags, ← hslot] at hflag
      exact hflag
  · rw [hslot, hown]
    rfl
  · rw [hslot, hown]
    rfl
  · intro b hb
    rw [hpcb, Function.update_of_ne (hslot ▸ hb)]

/-! ## A program halts -/

theorem not_bottom (h : Session k (n + 1)) : k.executing.programPid ≠ k.executing.basePid := by
  have hbottom : k.executing.basePid = 0 := by
    rw [Kernel.executing, h.executing_zero]
    exact h.stack.base
  rw [h.programPid, hbottom]
  omega

/-- The parent's control block is another one. -/
theorem slots_ne (h : Session k (n + 1)) : pcbIndex (n : Int) ≠ pcbIndex ((n + 1 : Nat) : Int) := by
  have hdepth := h.stack.depth
  intro heq
  have hslots := (slotOf_inj (p := ⟨n, by omega⟩) (q := ⟨n + 1, by omega⟩)).mp heq
  rw [Fin.mk.injEq] at hslots
  omega

theorem tidy_halt (h : Session k (n + 1)) (status : Byte) (junk : Nat → Byte) (junkFd : Word)
    (regs : Regs) : Tidy k (.halt status junk junkFd regs) :=
  ⟨rfl, fun _ heq => absurd heq h.not_bottom⟩

/-- **A program halts** with its status, and its parent goes on where it executed it. -/
theorem halted (hshell : fs.Executable shell) (h : Session k (n + 1))
    (hflag : k.exceptionFlag = false) (status : Byte) (junk : Nat → Byte) {junkFd : Word}
    (regs : Regs) (hjunk : ∀ i, fdIndex junkFd = some i → 2 ≤ i →
      ((k.pcb (pcbIndex n)).fd i).flag = 0) :
    ∃ k', halt fs k status junk junkFd regs =
        (k', .resumed (status.setWidth 32) (k.pcb k.executingSlot).parentContext) ∧
      Session k' n ∧ k'.console = k.console ∧ ∀ b, b ≠ k.executingSlot → k'.pcb b = k.pcb b := by
  have hbase := h.not_bottom
  obtain ⟨m, hm⟩ := Session.step hshell h (h.tidy_halt status junk junkFd regs)
  rcases halt_cases fs k status junk junkFd regs with ⟨heq, _⟩ | ⟨heq, _⟩ | ⟨_, heq⟩
  · exact absurd heq hbase
  · exact absurd heq hbase
  · have hgive : SingleStack (k.halting.giveBack k.executing.programPid).view n := by
      have hview : (k.halting.giveBack k.executing.programPid).view =
          k.view.giveBack k.view.current := view_giveBack _
      rw [hview]
      exact h.stack.giveBack
    have hown : k.halting.executingSlot = k.executingSlot := rfl
    have hheir : (k.halting.giveBack k.executing.programPid).executingSlot = pcbIndex n := by
      rw [Kernel.executingSlot, Kernel.executing, show Kernel.currTerminalExecuting _ = 0 from
        hgive.executing, show Terminal.programPid _ = (n : Int) from hgive.program]
    have hne : pcbIndex (n : Int) ≠ k.executingSlot := by
      rw [h.executingSlot]
      exact h.slots_ne
    have hpcb := pcb_giveBack k.halting
    have hunopened : ∀ i, fdIndex junkFd = some i → 2 ≤ i →
        ((k.halting.giveBack k.executing.programPid).descriptors i).flag = 0 := by
      intro i hi hlow
      rw [Kernel.descriptors, hheir]
      have hparent := congrFun hpcb (pcbIndex n)
      rw [hown, Function.update_of_ne hne] at hparent
      exact (congrArg (fun p : Pcb => (p.fd i).flag) hparent).trans (hjunk i hi hlow)
    obtain ⟨hret, hclosed⟩ := close_closed hunopened
    rcases resumeParent_cases k.halting k.executing.programPid (exitStatus k status) junkFd with
      ⟨hnone, _⟩ | ⟨_, hresume⟩
    · rw [hret] at hnone
      cases hnone
    · rw [hclosed] at hresume
      have hstatus : exitStatus k status = status.setWidth 32 := by
        rw [exitStatus, hflag]
        rfl
      rw [kernelStep, heq, hresume] at hm
      rw [heq, hresume, hstatus]
      refine ⟨_, rfl, ?_, giveBack_console k.halting _, fun b hb => ?_⟩
      · have hprogram : (k.halting.giveBack k.executing.programPid).view.programPid 0 = m :=
          hm.stack.program
        obtain rfl : m = n := by
          have hdepth := hprogram.symm.trans hgive.program
          omega
        exact hm
      · have hother := congrFun hpcb b
        rw [hown, Function.update_of_ne hb] at hother
        exact hother

end Session

/-! ## A command -/

/-- **A command.**  While there is one terminal, and its bottom shells halt with no file open: if
`execute` launches a program that fits its page, makes `Q` of fresh descriptors and has calls store
into its page only, the program does so over the kernel, however often the timer ticks; when it
halts with its status, `execute` returns that to the shell, in the shell's frame.  The console
shows the text, and the shell, its ancestors and their descriptors are as they were.

`hotjam` is up behind the `halt` of a bottom shell, and swallows the next write; an exception puts
its own status in place of the program's; and `halt` closes the descriptor of the parent that its
unassigned `fd` names. -/
theorem command_runs {fs : FileSystem} (hshell : fs.Executable shell) {k k' : Kernel}
    (hk : OneTerminal fs k) (hhotjam : k.hotjam = false) (hflag : k.exceptionFlag = false)
    {command : CString} {junk : Nat → Byte} {regs : Regs} {pid : Fin 6} {eip : Word}
    {image : List Byte}
    (hexec : execute fs k (some command) junk regs = (k', .launched pid eip image))
    (hfits : image.length ≤ 0x3B8000) {program : UserProgram Word} {Q : List Byte → Word → Prop}
    (hprogram : ∀ p : Process, p.Fresh → Yields (pageSystem fs (parseCommand command).2) program p
      fun status p' => Q p'.text status)
    (ticks : Nat → List Regs) (junk' : Nat → Byte) {junkFd : Word} (regs' : Regs)
    (hjunk : ∀ i, fdIndex junkFd = some i → 2 ≤ i → (k.descriptors i).flag = 0) :
    ∃ text status kend n kshell, Q text status ∧
      program.run (tickingSystem fs ticks) (k', 0) = some (status, kend, n) ∧
      halt fs (ticking ticks n kend) (status.setWidth 8) junk' junkFd regs' =
        (kshell, .resumed ((status.setWidth 8).setWidth 32) regs) ∧
      kshell.console = puts k.console text ∧ kshell.process = k.process ∧
      kshell.executing.programPid = k.executing.programPid ∧
      (∀ b, b ≠ View.slotOf pid → kshell.pcb b = k.pcb b) ∧ OneTerminal fs kshell := by
  obtain ⟨n, hn⟩ := hk.session hshell
  have hl := hn.launched hshell hhotjam hexec
  have hslot : k'.executingSlot = View.slotOf pid := by
    have hpid : (pid : Nat) = n + 1 := hn.stack.firstFree_eq (Session.launched_eq hexec).2.1
    rw [hl.session.executingSlot, View.slotOf, hpid]
  -- the program runs
  have hyields := hprogram k'.runningProcess hl.fresh
  rw [← hl.arg] at hyields
  obtain ⟨status, ⟨kend, i⟩, hpage, p, hserves, hQ⟩ :=
    (simulates_ticking fs hl.alone ticks).restricted.yields (s := (k', 0)) (serves_refl k') hyields
  obtain ⟨_, hrun, rfl⟩ := simulates_restricted.run rfl hpage
  have hticked : Serves k' (ticking ticks i kend) p := hserves.ticks hl.alone (ticks i)
  -- it is still the process above the shell
  obtain ⟨events, hevents, hkinds, hstores⟩ := run_events hpage
  have hlaunched : OneTerminal fs k' := by
    have hloads : LoadsInPage fs k (.execute (some command) junk regs) := by
      show Control.imageLength (execute fs k (some command) junk regs).2 ≤ _
      rw [hexec]
      exact hfits
    have hstep := hk.step (e := .execute (some command) junk regs) ⟨rfl, fun he => by cases he⟩
      ⟨trivial, hloads⟩
    rw [kernelStep, hexec] at hstep
    exact hstep
  have hend : OneTerminal fs (ticking ticks i kend) := by
    rw [ticking_run fs, hevents]
    refine (hlaunched.run hkinds hstores).run (fun e he => ?_) (ticks_store fs _ _)
    obtain ⟨regs, -, rfl⟩ := List.mem_map.mp he
    exact Or.inl ⟨regs, rfl⟩
  obtain ⟨m, hm⟩ := hend.session hshell
  obtain rfl : m = n + 1 := by
    have hprogram : ((ticking ticks i kend).multiTerminal 0).programPid =
        (k'.multiTerminal 0).programPid :=
      (congrArg (fun k : Kernel => (k.multiTerminal 0).programPid) hticked.offScreen :)
    have hdepth := (hm.stack.program.symm.trans hprogram).trans hl.session.stack.program
    omega
  -- it halts
  have hne : pcbIndex (n : Int) ≠ k'.executingSlot := by
    rw [hl.session.executingSlot]
    exact hl.session.slots_ne
  have hshellPcb : (ticking ticks i kend).pcb (pcbIndex n) = k.pcb k.executingSlot := by
    rw [hticked.others _ hne, hl.others _ hne, hn.executingSlot]
  have hexception : (ticking ticks i kend).exceptionFlag = false :=
    (congrArg Kernel.exceptionFlag hticked.offScreen :).trans (hl.exceptionFlag.trans hflag)
  have hunopened : ∀ j, fdIndex junkFd = some j → 2 ≤ j →
      (((ticking ticks i kend).pcb (pcbIndex n)).fd j).flag = 0 := by
    rw [hshellPcb]
    exact hjunk
  obtain ⟨kshell, hhalt, hsession, hconsole, hothers⟩ :=
    hm.halted hshell hexception (status.setWidth 8) junk' regs' hunopened
  rw [hticked.executingSlot, hticked.parent, hl.parent] at hhalt
  refine ⟨p.text, status, kend, i, kshell, hQ, hrun, hhalt, ?_, ?_, ?_, ?_, ?_⟩
  · have hoff : ∀ k : Kernel, k.offProcess.console = k.console := fun _ => rfl
    rw [hconsole, ← hoff, hticked.console, puts_console, hoff, hl.console]
  · funext j
    rw [Bool.eq_iff_iff]
    exact (hsession.stack.allocated j).trans (hn.stack.allocated j).symm
  · rw [hsession.programPid, hn.programPid]
  · intro b hb
    have hb' : b ≠ k'.executingSlot := hslot ▸ hb
    rw [hothers b (hticked.executingSlot ▸ hb'), hticked.others b hb', hl.others b hb']
  · have hloads : LoadsInPage fs (ticking ticks i kend)
        (.halt (status.setWidth 8) junk' junkFd regs') := by
      show Control.imageLength (halt fs _ _ _ _ _).2 ≤ _
      rw [hhalt]
      exact Nat.zero_le _
    have hstep := hend.step (hm.tidy_halt (status.setWidth 8) junk' junkFd regs') ⟨trivial, hloads⟩
    rw [kernelStep, hhalt] at hstep
    exact hstep

theorem directoryImage_executable : directoryImage.Executable shell :=
  ⟨⟨shell, 2, 0⟩, by decide +kernel, by decide +kernel⟩

/-- The first shell. -/
def shellWithDirectory : Kernel := booted directoryImage zeroHardware noJunk ⟨0x7FFF00, 0x7FFF40⟩

theorem noNul_shellShell : (0 : Byte) ∉ ascii "shell shell".toList := by decide

def shellShell : CString := ⟨ascii "shell shell".toList, noNul_shellShell⟩

/-! ### `cat` -/

section Calls
variable {arg : CString}

theorem calls_fdputs (fd a : Word) (s : Nat → Byte) (room : Nat) :
    (Ece391.fdputs fd a s room).Calls fun c => InPage c.pointer (c.room arg) := by
  unfold Ece391.fdputs
  split
  · trivial
  · exact calls_make (Or.inl rfl) fun _ => trivial

theorem calls_openText (array : Nat → Byte) (room : Nat) :
    (Ece391.openText array room).Calls fun c => InPage c.pointer (c.room arg) := by
  unfold Ece391.openText
  split
  · trivial
  · exact calls_make (Or.inl rfl) fun _ => trivial

/-- With its buffer in the program page, `cat` has nothing stored anywhere else. -/
theorem calls_cat {buf : Buffer 1024} (hbuf : InPage buf.address 1024) (harg : arg.strlen < 1024)
    (literals : Buffer 1) (old : Nat → Byte) (rounds : Nat) :
    (cat buf literals old rounds).Calls fun c => InPage c.pointer (c.room arg) := by
  have hround : ∀ fd name, (catRound fd buf literals name).Calls
      fun c => InPage c.pointer (c.room arg) := by
    refine fun fd name => calls_make (hbuf.mono (le_refl _)) fun data => ?_
    split
    · trivial
    · split
      · exact calls_bind (calls_fdputs ..) fun _ => trivial
      · refine calls_make (Or.inl rfl) fun written => ?_
        split <;> trivial
  refine calls_make (hbuf.mono harg) fun args => ?_
  split
  · exact calls_bind (calls_fdputs ..) fun _ => trivial
  · refine calls_bind (calls_openText ..) fun fd => ?_
    split
    · exact calls_bind (calls_fdputs ..) fun _ => trivial
    · exact calls_loop (hround fd) rounds _

end Calls

/-- The shell executes `shell shell`, and the program is `cat`. -/
theorem command_runs_cat :
    ∃ text status kend n kshell, (text = directoryImage.fileContents 0 ∧ status = 0) ∧
      (cat ⟨0x83FFB00, by decide, by decide⟩ ⟨0x8049000, by decide, by decide⟩ noJunk
        4190209).run (tickingSystem directoryImage fun _ => [⟨0x7FDF00, 0x7FDF40⟩])
          (withArgument, 0) = some (status, kend, n) ∧
      halt directoryImage (ticking (fun _ => [⟨0x7FDF00, 0x7FDF40⟩]) n kend) (status.setWidth 8)
          noJunk 7 ⟨0x7FDE00, 0x7FDE40⟩ =
        (kshell, .resumed ((status.setWidth 8).setWidth 32) ⟨0x7FFE00, 0x7FFE40⟩) ∧
      kshell.console = puts shellWithDirectory.console text ∧
      kshell.process = shellWithDirectory.process ∧
      kshell.executing.programPid = shellWithDirectory.executing.programPid ∧
      (∀ b, b ≠ View.slotOf 1 → kshell.pcb b = shellWithDirectory.pcb b) ∧
      OneTerminal directoryImage kshell := by
  have hboot : OneTerminal directoryImage shellWithDirectory :=
    ⟨zeroHardware, noJunk, ⟨0x7FFF00, 0x7FFF40⟩, [], fun _ => rfl, ⟨trivial, by decide +kernel⟩,
      trivial, rfl⟩
  have hcontrol : (execute directoryImage shellWithDirectory (some shellShell) noJunk
      ⟨0x7FFE00, 0x7FFE40⟩).2 = .launched 1 (entryPoint directoryImage 0 noJunk)
        (directoryImage.readData 0 0 (directoryImage.inodeLength 0)).stored := by decide +kernel
  have houtcome : catOutcome directoryImage (parseCommand shellShell).2 =
      (directoryImage.fileContents 0, 0) := by decide +kernel
  have harg : (parseCommand shellShell).2.strlen < 1024 := by decide +kernel
  refine command_runs directoryImage_executable hboot (by decide +kernel) (by decide +kernel)
    (Prod.ext rfl hcontrol) (by decide +kernel) (fun p hp => ?_) _ _ _ (by decide +kernel)
  have hcat := yields_cat directoryImage_validImage hp.ready harg
    ⟨0x83FFB00, by decide, by decide⟩ ⟨0x8049000, by decide, by decide⟩ noJunk
    (show 1023 * 4096 < 4190209 by omega)
  simp only [houtcome, hp.text, List.nil_append] at hcat
  exact hcat.restricted inPage_of_room (calls_cat (by decide) harg _ _ _)

end LinuxLikeOS
