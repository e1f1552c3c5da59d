import LinuxLikeOS.CommandLine
import LinuxLikeOS.Frames
import LinuxLikeOS.Scenes

/-! # Which argument `getargs` returns

`execute` copies the argument text of its command to the control block it fills in, and no
other function writes that field: whatever is launched, halted, scheduled and shown, the text
stays there as long as the process does (`argumentsKept_step`).

`getargs` takes the text from the control block of the visible terminal's program.  So the
executing process gets its own argument if the two texts agree, and not otherwise
(`delivers_iff`).
-/
namespace LinuxLikeOS
open Transition

/-! ## The arguments of a run -/

/-- The argument texts of the commands that launched the processes, by control block. -/
abbrev Arguments := Byte → Option (List Byte)

/-- The command that an event executes. -/
def Event.command : Event → Option CString
  | .execute command .. => command
  | .switchTo .. | .halt .. => some shell
  | _ => none

/-- What is known of each control block, when an event may launch a process in one of them
with `value` for its command. -/
def relaunch {α : Type} (fs : FileSystem) (k : Kernel) (e : Event) (value : CString → α)
    (f : Byte → α) : Byte → α :=
  match (processControl fs k e).bind Control.launchedSlot, e.command with
  | some pid, some command => Function.update f (View.slotOf pid) (value command)
  | _, _ => f

/-- The texts after an event: a process that halts takes its text along, and one that is
launched brings its own. -/
def recordArgument (fs : FileSystem) (k : Kernel) (e : Event) (args : Arguments) : Arguments :=
  relaunch fs k e (fun command => some (argumentText command))
    (if e.isHalt then Function.update args k.executingSlot none else args)

/-- The kernel and the texts. -/
def argumentMachine (fs : FileSystem) : Machine (Kernel × Arguments) Event :=
  (kernelMachine fs).withHistory (recordArgument fs)

/-- Booting executes the first shell. -/
def bootedArguments (fs : FileSystem) (h : Hardware) (junk : Nat → Byte) (regs : Regs) :
    Kernel × Arguments :=
  (argumentMachine fs).step (initialised h, fun _ => none) (.execute (some shell) junk regs)

/-- `getargs`, with a buffer, gives the executing process the text it was launched with, or -1
and nothing if that is empty. -/
def Delivers (c : Kernel × Arguments) : Event → Prop
  | .getargs buf nbytes => buf ≠ 0 → ∀ text, c.2 c.1.executingSlot = some text →
      (Syscall.getargs c.1 buf nbytes).ret = (if text = [] then some minusOne else some 0) ∧
        (Syscall.getargs c.1 buf nbytes).stored = if text = [] then [] else text ++ [0]
  | _ => True

/-- The visible terminal's program has the same argument as the executing process. -/
def FindsOwnArgument (c : Kernel × Arguments) : Event → Prop
  | .getargs buf _ => buf ≠ 0 → c.2 c.1.executingSlot ≠ none →
      (c.1.pcb c.1.visibleSlot).arg = (c.1.pcb c.1.executingSlot).arg
  | _ => True

/-- The texts are in the control blocks. -/
def ArgumentsKept (c : Kernel × Arguments) : Prop :=
  ∀ slot text, c.2 slot = some text → (c.1.pcb slot).arg.bytes = text

/-! ## The field `arg` -/

/-- The `arg` fields of the control blocks. -/
def Kernel.args (k : Kernel) (slot : Byte) : CString := (k.pcb slot).arg

section Fields
variable {fs : FileSystem} {k k' : Kernel}

theorem args_of_core (h : k'.core = k.core) : k'.args = k.args :=
  have hargs : ∀ k : Kernel, k.core.args = k.args := fun _ => rfl
  (hargs k').symm.trans ((congrArg Kernel.args h).trans (hargs k))

theorem args_of_offScreen (h : k'.offScreen = k.offScreen) : k'.args = k.args :=
  args_of_core (core_of_offScreen h)

theorem args_launched (pid : Fin 6) (arg : CString) (regs : Regs) :
    (k.launched pid arg regs).args = Function.update k.args (View.slotOf pid) arg := by
  funext slot
  have hpcb := pcb_launched k pid arg regs
  by_cases hslot : slot = View.slotOf pid
  · rw [hslot, Function.update_self, Kernel.args, hpcb, Function.update_self]
    rfl
  · rw [Function.update_of_ne hslot, Kernel.args, hpcb, Function.update_of_ne hslot]
    rfl

/-- `execute` fills in the argument of the command it launches. -/
theorem args_execute (fs : FileSystem) (k : Kernel) (command : Option CString)
    (junk : Nat → Byte) (regs : Regs) :
    ((execute fs k command junk regs).2.launchedSlot = none ∧
      (execute fs k command junk regs).1.args = k.args) ∨
    ∃ pid c, (execute fs k command junk regs).2.launchedSlot = some pid ∧ command = some c ∧
      (execute fs k command junk regs).1.args =
        Function.update k.args (View.slotOf pid) (parseCommand c).2 := by
  unfold execute
  split
  · exact Or.inl ⟨rfl, rfl⟩
  · cases command with
    | none => exact Or.inl ⟨rfl, rfl⟩
    | some command =>
      dsimp only
      split
      · exact Or.inl ⟨rfl, rfl⟩
      · split
        · exact Or.inl ⟨rfl, rfl⟩
        · rename_i d _
          rcases executeFile_cases fs k.activateExecuting d (parseCommand command).2 junk regs with
            ⟨k', hoff, heq⟩ | ⟨pid, eip, image, _, _, heq⟩ <;> rw [heq]
          · have hactivate : k.activateExecuting.args = k.args := rfl
            exact Or.inl ⟨rfl, (args_of_offScreen hoff).trans hactivate⟩
          · exact Or.inr ⟨pid, command, rfl, rfl, args_launched pid _ regs⟩

theorem args_resumeParent (currPid : Int) (status junkFd : Word) :
    (resumeParent k currPid status junkFd).1.args = k.args := by
  have hgive : (k.giveBack currPid).args = k.args := by
    funext slot
    by_cases hslot : slot = pcbIndex currPid
    · subst hslot
      simp [Kernel.args, Kernel.giveBack, Kernel.setPcb]
    · simp [Kernel.args, Kernel.giveBack, Kernel.setPcb, hslot, Kernel.mapPhysicalMemory,
        Kernel.setTerminal, Kernel.setProcess]
  have hclose := args_of_core (core_close (k := k.giveBack currPid) junkFd)
  rcases resumeParent_cases k currPid status junkFd with ⟨_, heq⟩ | ⟨_, heq⟩ <;> rw [heq]
  · exact hclose.trans hgive
  · exact hclose.trans hgive

theorem args_pitHandler (regs : Regs) : (pitHandler k regs).1.args = k.args := by
  funext slot
  by_cases hslot : slot = k.executingSlot
  · subst hslot
    simp [pitHandler, Kernel.args, Kernel.saveContext, Kernel.setPcb, Kernel.mapPhysicalMemory]
  · simp [pitHandler, Kernel.args, Kernel.saveContext, Kernel.setPcb, hslot,
      Kernel.mapPhysicalMemory]

theorem args_vidmap (screenStart : Word) : (Syscall.vidmap k screenStart).kernel.args = k.args :=
  vidmap_keeps (P := fun k' => k'.args = k.args) rfl (fun _ => rfl) screenStart

/-- What an `execute` does, in an event that comes to one. -/
theorem relaunch_execute {e : Event} {command : Option CString} {junk : Nat → Byte} {regs : Regs}
    (hargs : k'.args = k.args) (hcommand : e.command = command)
    (hcontrol : processControl fs k e = some (execute fs k' command junk regs).2) :
    (execute fs k' command junk regs).1.args =
      relaunch fs k e (fun c => (parseCommand c).2) k.args := by
  rw [relaunch, hcontrol, hcommand, Option.bind_some, ← hargs]
  rcases args_execute fs k' command junk regs with
    ⟨hnone, hsame⟩ | ⟨pid, c, hsome, rfl, hlaunched⟩
  · rw [hnone, hsame]
  · rw [hsome, hlaunched]

theorem relaunch_switchTo (t : Fin 3) (junk : Nat → Byte) (entry frame : Regs) :
    (switchTerminal fs k t junk frame).1.args =
      relaunch fs k (.switchTo t junk entry frame) (fun c => (parseCommand c).2) k.args := by
  rcases switchTerminal_cases fs k t junk frame with
    ⟨_, heq⟩ | ⟨_, _, heq⟩ | ⟨_, _, heq⟩
  · rw [relaunch, processControl, heq]
    rfl
  · rw [relaunch, processControl, heq]
    rfl
  · rw [heq]
    exact relaunch_execute rfl rfl (congrArg (fun p : Kernel × Control => some p.2) heq)

/-- A bottom shell is launched again; any other process gives way to its parent. -/
theorem relaunch_halt (status : Byte) (junk : Nat → Byte) (junkFd : Word) (regs : Regs) :
    (halt fs k status junk junkFd regs).1.args =
      relaunch fs k (.halt status junk junkFd regs) (fun c => (parseCommand c).2) k.args := by
  have hretire : k.halting.retire.args = k.args := rfl
  rcases halt_cases fs k status junk junkFd regs with
    ⟨_, pid, arg, eip, image, hrun, heq⟩ | ⟨_, k', v, hrun, heq⟩ | ⟨_, heq⟩
  · have hcontrol := congrArg (fun p : Kernel × Control => some p.2) (heq.trans hrun.symm)
    rw [heq, ← hrun]
    exact relaunch_execute hretire rfl hcontrol
  · have hshell := args_execute fs k.halting.retire (some shell) junk regs
    rw [hrun] at hshell
    rcases hshell with ⟨_, hsame⟩ | ⟨_, _, hnone, _⟩
    · rw [relaunch, processControl, heq, Option.bind_some, launchedSlot_resumeParent,
        args_resumeParent, hsame, hretire]
    · cases hnone
  · rw [relaunch, processControl, heq, Option.bind_some, launchedSlot_resumeParent,
      args_resumeParent]
    rfl

/-- **One event** writes the argument of the process it launches, if it launches one, and no
other. -/
theorem args_step (fs : FileSystem) (k : Kernel) (e : Event) :
    (kernelStep fs k e).args = relaunch fs k e (fun c => (parseCommand c).2) k.args := by
  have hcall : (kernelStep fs k e).core = k.core → processControl fs k e = none →
      (kernelStep fs k e).args = relaunch fs k e (fun c => (parseCommand c).2) k.args := by
    intro hcore hcontrol
    rw [relaunch, hcontrol]
    exact args_of_core hcore
  cases e with
  | pitTick regs => exact args_pitHandler regs
  | execute command junk regs => exact relaunch_execute rfl rfl rfl
  | switchTo t junk entry frame => exact relaunch_switchTo t junk entry frame
  | halt status junk junkFd regs => exact relaunch_halt status junk junkFd regs
  | raiseException => rfl
  | vidmap screenStart => exact args_vidmap screenStart
  | key | ctrlL | read | lineServed | write | «open» | close | getargs =>
    exact hcall (core_call rfl (by simp) (by simp)) rfl

end Fields

/-! ## Runs -/

section Runs
variable {fs : FileSystem} {c : Kernel × Arguments}

/-- **The texts stay in the control blocks.** -/
theorem argumentsKept_step (h : ArgumentsKept c) (e : Event) :
    ArgumentsKept ((argumentMachine fs).step c e) := by
  intro slot text hslot
  have hargs := congrFun (args_step fs c.1 e) slot
  have hbytes := fun command => (parseCommand_bytes command).2
  have hrest : ∀ slot text, (if e.isHalt then Function.update c.2 c.1.executingSlot none
      else c.2) slot = some text → (c.1.args slot).bytes = text := by
    intro slot text hold
    split at hold
    · by_cases hhalts : slot = c.1.executingSlot
      · rw [hhalts, Function.update_self] at hold
        cases hold
      · rw [Function.update_of_ne hhalts] at hold
        exact h slot text hold
    · exact h slot text hold
  have hrecord : recordArgument fs c.1 e c.2 slot = some text := hslot
  show ((kernelStep fs c.1 e).args slot).bytes = text
  rw [hargs]
  unfold recordArgument relaunch at hrecord
  unfold relaunch
  cases hpid : (processControl fs c.1 e).bind Control.launchedSlot with
  | none =>
    rw [hpid] at hrecord
    exact hrest slot text hrecord
  | some pid =>
    rw [hpid] at hrecord
    cases hcommand : e.command with
    | none =>
      rw [hcommand] at hrecord
      exact hrest slot text hrecord
    | some command =>
      rw [hcommand] at hrecord
      dsimp only at hrecord ⊢
      by_cases hnew : slot = View.slotOf pid
      · rw [hnew, Function.update_self] at hrecord ⊢
        rw [hbytes]
        exact Option.some.inj hrecord
      · rw [Function.update_of_ne hnew] at hrecord ⊢
        exact hrest slot text hrecord

/-- What `getargs` gives, by the argument it finds. -/
theorem getargs_eq {k : Kernel} {buf : Word} (hbuf : buf ≠ 0) (nbytes : Word) :
    let found := (k.pcb k.visibleSlot).arg.bytes
    (Syscall.getargs k buf nbytes).ret = (if found = [] then some minusOne else some 0) ∧
      (Syscall.getargs k buf nbytes).stored = if found = [] then [] else found ++ [0] := by
  intro found
  have hempty : (k.pcb k.visibleSlot).arg.strlen = 0 ↔ found = [] := List.length_eq_zero_iff
  unfold Syscall.getargs
  rw [if_neg hbuf]
  dsimp only
  by_cases h : found = []
  · rw [if_pos (hempty.mpr h), if_pos h, if_pos h]
    exact ⟨rfl, rfl⟩
  · rw [if_neg fun hlen => h (hempty.mp hlen), if_neg h, if_neg h]
    exact ⟨rfl, rfl⟩

/-- **One call** delivers if and only if it finds the argument of the executing process. -/
theorem delivers_iff (h : ArgumentsKept c) (e : Event) : Delivers c e ↔ FindsOwnArgument c e := by
  cases e with
  | getargs buf nbytes =>
    refine forall_congr' fun hbuf => ?_
    obtain ⟨hret, hstored⟩ := getargs_eq (k := c.1) hbuf nbytes
    cases htext : c.2 c.1.executingSlot with
    | none => exact iff_of_true (fun _ hnone => nomatch hnone) fun hnone => absurd rfl hnone
    | some text =>
      have hown := h _ text htext
      have hsame : (c.1.pcb c.1.visibleSlot).arg = (c.1.pcb c.1.executingSlot).arg ↔
          (c.1.pcb c.1.visibleSlot).arg.bytes = text := by
        rw [← hown]
        exact CString.mk.injEq .. ▸ Iff.rfl
      simp only [Option.some.injEq, forall_eq', ne_eq, reduceCtorEq, not_false_eq_true,
        true_implies, hsame, hret, hstored]
      constructor
      · rintro ⟨hcalls, hbytes⟩
        by_cases hnil : text = []
        · rw [if_pos hnil] at hcalls
          split at hcalls
          · rename_i hfound
            rw [hfound, hnil]
          · cases hcalls
        · rw [if_neg hnil] at hcalls hbytes
          split at hcalls
          · cases hcalls
          · rename_i hfound
            rw [if_neg hfound] at hbytes
            exact List.append_cancel_right hbytes
      · intro hfound
        rw [hfound]
        exact ⟨rfl, rfl⟩
  | _ => exact Iff.rfl

end Runs

/-- **Argument delivery.**  In every run from boot, every call of `getargs` gives the executing
process the argument text of the command that launched it, if and only if at every call the
visible terminal's program has the same argument. -/
theorem delivers_run (fs : FileSystem) (h : Hardware) (junk : Nat → Byte) (regs : Regs)
    (es : List Event) :
    (argumentMachine fs).Guarded Delivers (bootedArguments fs h junk regs) es ↔
      (argumentMachine fs).Guarded FindsOwnArgument (bootedArguments fs h junk regs) es := by
  have hboot : ArgumentsKept (bootedArguments fs h junk regs) :=
    argumentsKept_step (fun _ _ hnone => by cases hnone) _
  exact Machine.guarded_congr (Machine.guarded_of_step (fun c e hc _ => argumentsKept_step hc e)
    (fun c e hc _ => delivers_iff hc e) hboot (Machine.guarded_true _ es))

/-- A program with an argument runs, and after a tick it is left in the background. -/
def leftWithArgument : List Event :=
  [.execute (some ⟨ascii "shell frame0.txt".toList, by decide⟩) noJunk ⟨0x7FFE00, 0x7FFE40⟩,
    .pitTick ⟨0x7FDF00, 0x7FDF40⟩, .switchTo 1 noJunk ⟨0x7FDD00, 0x7FDD40⟩ ⟨0x7FDC00, 0x7FDC40⟩,
    .pitTick ⟨0x7FBF00, 0x7FBF40⟩, .pitTick ⟨0x7FBF00, 0x7FBF40⟩]

/-- It asks for its argument, and `getargs` finds the one of the shell that is shown. -/
theorem delivers_leftWithArgument :
    ¬∀ (fs : FileSystem) (h : Hardware) (junk : Nat → Byte) (regs : Regs) (es : List Event)
      (buf nbytes : Word),
      Delivers ((argumentMachine fs).run (bootedArguments fs h junk regs) es)
        (.getargs buf nbytes) := by
  intro hall
  have hdelivers := hall shellImage zeroHardware noJunk ⟨0x7FFF00, 0x7FFF40⟩ leftWithArgument
    0x8100000 128 (by decide) (ascii "frame0.txt".toList) (by decide +kernel)
  exact absurd hdelivers.1 (by decide +kernel)

end LinuxLikeOS
