import LinuxLikeOS.SystemCalls

/-! # `execute` and `halt`

`execute` parses a command, checks the file and the number of processes, takes a
slot and jumps to the program; `halt` gives the slot back and jumps into the
frame of the `execute` that started the program, which then returns the status to
the parent.  A halting bottom shell (one whose `program_pid` is its terminal's
`base_pid`) executes a new shell instead.

Neither function always returns to its caller, so a function of this layer leaves
a kernel and says where the processor goes (`Control`).  What the source reads
before it is written is a parameter: `junk` is the two stack arrays that
`read_data` may leave partly unfilled (`check_exe` at 0, `prog_eip_buffer` at 4),
and `junkFd` the variable that `halt` hands to `close`.  A command word longer
than the 32 bytes of `cmd` is found by its length and refused; what the copy loop
overwrote on the stack by then is outside the model.  A program that does not fit the page of
its process is loaded as a whole; where the pages behind are not present the loader faults
instead, which `executeLoading` adds.
-/
namespace LinuxLikeOS
open CountedLoop

/-- Where the processor goes when a handler or a system call is done. -/
inductive Control
  /-- to the caller, with this in `eax` -/
  | returned (value : Word)
  /-- to user mode: the program in slot `pid`, loaded from `image`, at `eip` -/
  | launched (pid : Fin 6) (eip : Word) (image : List Byte)
  /-- to `halt_ret` in the parent's frame: its `execute` returns `value` -/
  | resumed (value : Word) (regs : Regs)
  /-- to the page fault handler, through the NULL jump table or by a store -/
  | faulted
  deriving DecidableEq

/-! ## The command line -/

/-- `' '` or `'\t'`. -/
def isBlank (c : Byte) : Bool := c == 0x20 || c == 0x09

/-- A loop of the parser: the index moves on from `i` while `p` holds, up to the
end of the command. -/
def skipWhile (p : Byte → Bool) (command : CString) (i : Nat) : Nat :=
  i + leading (fun j => p (command.get j)) (command.strlen - i) i

/-- The program name and the argument in a command. -/
def parseCommand (command : CString) : CString × CString :=
  let cmdStart := skipWhile isBlank command 0
  let cmdEnd := skipWhile (fun c => !isBlank c) command cmdStart
  let argStart := skipWhile isBlank command cmdEnd
  let argEnd := skipWhile (fun _ => true) command argStart
  (command.slice cmdStart (cmdEnd - cmdStart), command.slice argStart (argEnd - argStart))

/-- `"shell"`. -/
def shell : CString := ⟨ascii "shell".toList, by decide⟩

/-! ## `execute` -/

/-- An array that held `junk` once `stored` is copied to its start. -/
def overlay (stored : List Byte) (junk : Nat → Byte) (i : Nat) : Byte := stored.getD i (junk i)

/-- The magic number of an executable. -/
def isElf (check : Nat → Byte) : Bool :=
  check 0 == 0x7F && check 1 == 0x45 && check 2 == 0x4C && check 3 == 0x46

/-- The entry point: bytes 24 to 27 of the file. -/
def entryPoint (fs : FileSystem) (inode : Word) (junk : Nat → Byte) : Word :=
  let buffer := overlay (fs.readData inode 24 4).stored fun i => junk (4 + i)
  buffer 3 ++ buffer 2 ++ buffer 1 ++ buffer 0

namespace Kernel
variable (k : Kernel)

/-- The test of the early return of `execute`. -/
def jammed : Bool := k.jammer && !k.hotjam

/-- The executing terminal becomes active, if it is not. -/
def activateExecuting : Kernel :=
  k.setTerminal k.currTerminalExecuting { k.executing with active := true }

/-- The control block `execute` fills in. -/
def newPcb (old : Pcb) (pid : Fin 6) (parentId : Word) (arg : CString) (regs : Regs) : Pcb where
  fd := Function.update (Function.update old.fd 0 ⟨some .stdin, 0, 0, 1⟩) 1 ⟨some .stdout, 0, 0, 1⟩
  pid := BitVec.ofNat 32 pid
  parentId := parentId
  parentEsp := regs.esp
  parentEbp := regs.ebp
  esp := regs.esp
  ebp := regs.ebp
  active := 1
  arg := arg

/-- Everything `execute` does once it has the slot `pid`. -/
def launch (pid : Fin 6) (arg : CString) (regs : Regs) : Kernel :=
  let slot := pcbIndex pid
  let t := k.currTerminalExecuting
  { k with
    pageDirectory := (k.mapPhysicalMemory slot).pageDirectory
    pcb := Function.update k.pcb slot
      (newPcb (k.pcb slot) pid (BitVec.ofInt 32 k.executing.programPid) arg regs)
    multiTerminal := Function.update k.multiTerminal t { k.executing with programPid := pid }
    tss := ⟨0x18, kernelStackTop (BitVec.ofNat 32 pid)⟩ }

/-- Everything `execute` changes when it launches in the free slot `pid`. -/
def launched (pid : Fin 6) (arg : CString) (regs : Regs) : Kernel :=
  (k.activateExecuting.setProcess (pid : Int) true).launch pid arg regs

end Kernel

/-- `printf("file is not exe\n")`. -/
def notExe : List Byte := ascii "file is not exe\n".toList

/-- `printf("too many processes,  ")`. -/
def tooMany : List Byte := ascii "too many processes,  ".toList

/-- `execute` from the executable check on, for the file `dentry`. -/
def executeFile (fs : FileSystem) (k : Kernel) (dentry : Dentry) (arg : CString)
    (junk : Nat → Byte) (regs : Regs) : Kernel × Control :=
  if isElf (overlay (fs.readData dentry.inodeNum 0 4).stored junk) then
    if k.tooManyProcesses then (puts k tooMany, .returned minusOne)
    else
      match k.getPid with
      | none => (puts k tooMany, .returned minusOne)
      | some (pid, k') =>
        let fileSize := fs.inodeLength dentry.inodeNum
        (k'.launch pid arg regs,
          .launched pid (entryPoint fs dentry.inodeNum junk)
            (fs.readData dentry.inodeNum 0 fileSize).stored)
  else (puts k notExe, .returned minusOne)

/-- `execute`; `none` is the NULL pointer. -/
def execute (fs : FileSystem) (k : Kernel) (command : Option CString) (junk : Nat → Byte)
    (regs : Regs) : Kernel × Control :=
  if k.jammed then (k, .returned 0)
  else
    match command with
    | none => (k, .returned minusOne)
    | some command =>
      if command.strlen > 128 then (k, .returned minusOne)
      else
        let (cmd, arg) := parseCommand command
        -- the terminal is made active before anything else is checked
        match fs.readDentryByName cmd with
        | none => (k.activateExecuting, .returned minusOne)
        | some dentry => executeFile fs k.activateExecuting dentry arg junk regs

/-- The file system has an executable of this name: it is found, and its first
four bytes are the magic number. -/
def FileSystem.Executable (fs : FileSystem) (name : CString) : Prop :=
  ∃ d, fs.readDentryByName name = some d ∧
    (fs.readData d.inodeNum 0 4).stored = [0x7F, 0x45, 0x4C, 0x46]

/-! ## `halt` -/

namespace Kernel
variable (k : Kernel)

/-- `page_table_video[curr_terminal_executing].P = 0`. -/
def unmapVideo : Kernel :=
  let e := videoEntry k.currTerminalExecuting
  { k with pageTableVideo :=
      Function.update k.pageTableVideo e { k.pageTableVideo e with present := false } }

/-- The control block of the parent of the process in slot `slot`. -/
def parentSlot (slot : Byte) : Byte := (k.pcb slot).parentId.setWidth 8

/-- A halting bottom shell gives up its slot and its terminal. -/
def retire : Kernel :=
  { (k.setProcess k.executing.programPid false).setTerminal k.currTerminalExecuting
      { k.executing with active := false } with hotjam := true }

/-- `halt` from `get_pcb(curr_pid)` to the closing loop. -/
def giveBack (currPid : Int) : Kernel :=
  let slot := pcbIndex currPid
  let parent := k.pcb (k.parentSlot slot)
  let k' := k.setProcess k.executing.programPid false
  let k' := k'.setTerminal k.currTerminalExecuting
    { k.executing with programPid := parent.pid.toInt }
  let k' := k'.mapPhysicalMemory (parent.pid.setWidth 8)
  k'.setPcb slot { k.pcb slot with active := 0, fd := fun _ => .cleared }

end Kernel

/-- `halt` after the test for a bottom shell. -/
def resumeParent (k : Kernel) (currPid : Int) (status : Word) (junkFd : Word) :
    Kernel × Control :=
  let current := k.pcb (pcbIndex currPid)
  let parent := k.pcb (k.parentSlot (pcbIndex currPid))
  let closed := Syscall.close (k.giveBack currPid) junkFd
  match closed.ret with
  | none => (closed.kernel, .faulted)
  | some _ =>
    ({ closed.kernel with tss := ⟨0x18, kernelStackTop parent.pid⟩ },
      .resumed status current.parentContext)

/-- The status `halt` passes on. -/
def exitStatus (k : Kernel) (status : Byte) : Word :=
  if k.exceptionFlag then 256 else status.setWidth 32

/-- `halt`. -/
def halt (fs : FileSystem) (k : Kernel) (status : Byte) (junk : Nat → Byte) (junkFd : Word)
    (regs : Regs) : Kernel × Control :=
  let localStatus := exitStatus k status
  let k := { k.unmapVideo with exceptionFlag := false }
  let currPid := k.executing.programPid
  if currPid = k.executing.basePid then
    match execute fs k.retire (some shell) junk regs with
    -- the shell was refused, and `halt` goes on as for any other process
    | (k', .returned _) => resumeParent k' currPid localStatus junkFd
    | launched => launched
  else resumeParent k currPid localStatus junkFd

/-! ## What one call can do -/

section Cases
variable {fs : FileSystem} {k : Kernel} {junk : Nat → Byte} {regs : Regs}

/-- The file part of `execute` prints a refusal or launches. -/
theorem executeFile_cases (fs : FileSystem) (k : Kernel) (d : Dentry) (arg : CString)
    (junk : Nat → Byte) (regs : Regs) :
    (∃ k', k'.offScreen = k.offScreen ∧
      executeFile fs k d arg junk regs = (k', .returned minusOne)) ∨
    (∃ pid eip image, k.tooManyProcesses = false ∧ k.firstFree = some pid ∧
      executeFile fs k d arg junk regs =
        ((k.setProcess (pid : Int) true).launch pid arg regs, .launched pid eip image)) := by
  unfold executeFile
  split
  · split
    · exact Or.inl ⟨_, puts_offScreen k _, rfl⟩
    · rename_i hroom
      cases hpid : k.getPid with
      | none => exact Or.inl ⟨_, puts_offScreen k _, rfl⟩
      | some p =>
        obtain ⟨pid, k'⟩ := p
        obtain ⟨hfree, rfl⟩ := getPid_eq_some.mp hpid
        exact Or.inr ⟨pid, _, _, by simpa using hroom, hfree, rfl⟩
  · exact Or.inl ⟨_, puts_offScreen k _, rfl⟩

/-- **What `execute` can do**: return at once while the kernel is jammed; refuse,
changing at most the screen and the executing terminal's `active`; or launch in
the first free slot. -/
theorem execute_cases (fs : FileSystem) (k : Kernel) (command : Option CString)
    (junk : Nat → Byte) (regs : Regs) :
    (k.jammed = true ∧ execute fs k command junk regs = (k, .returned 0)) ∨
    (k.jammed = false ∧ ∃ k', (k'.offScreen = k.offScreen ∨
      k'.offScreen = k.activateExecuting.offScreen) ∧
      execute fs k command junk regs = (k', .returned minusOne)) ∨
    (k.jammed = false ∧ ∃ pid arg eip image, k.activateExecuting.tooManyProcesses = false ∧
      k.firstFree = some pid ∧
      execute fs k command junk regs = (k.launched pid arg regs, .launched pid eip image)) := by
  unfold execute
  cases hjam : k.jammed with
  | true => exact Or.inl ⟨rfl, by simp⟩
  | false =>
    refine Or.inr ?_
    simp only [Bool.false_eq_true, if_false, true_and]
    cases command with
    | none => exact Or.inl ⟨k, Or.inl rfl, rfl⟩
    | some command =>
      by_cases hlong : command.strlen > 128
      · exact Or.inl ⟨k, Or.inl rfl, by simp [hlong]⟩
      · simp only [hlong, if_false]
        cases hfind : fs.readDentryByName (parseCommand command).1 with
        | none => exact Or.inl ⟨_, Or.inr rfl, rfl⟩
        | some d =>
          rcases executeFile_cases fs k.activateExecuting d (parseCommand command).2 junk regs with
            ⟨k', hoff, heq⟩ | ⟨pid, eip, image, hroom, hfree, heq⟩
          · exact Or.inl ⟨k', Or.inr hoff, heq⟩
          · exact Or.inr ⟨pid, _, eip, image, hroom, hfree, heq⟩

theorem parseCommand_shell : parseCommand shell = (shell, ⟨[], by simp⟩) := by
  decide

/-- With a valid shell, `execute("shell")` is refused only for want of a slot. -/
theorem execute_shell (hshell : fs.Executable shell) (k : Kernel) {pid : Fin 6}
    (junk : Nat → Byte) (regs : Regs)
    (hjam : k.jammed = false) (hroom : k.activateExecuting.tooManyProcesses = false)
    (hfree : k.firstFree = some pid) :
    ∃ eip image, execute fs k (some shell) junk regs =
      (k.launched pid ⟨[], by simp⟩ regs, .launched pid eip image) := by
  obtain ⟨d, hfind, helf⟩ := hshell
  have hlen : ¬shell.strlen > 128 := by decide
  have hmagic : isElf (overlay [0x7F, 0x45, 0x4C, 0x46] junk) = true := rfl
  have hpid : k.activateExecuting.getPid =
      some (pid, k.activateExecuting.setProcess (pid : Int) true) :=
    getPid_eq_some.mpr ⟨hfree, rfl⟩
  refine ⟨entryPoint fs d.inodeNum junk,
    (fs.readData d.inodeNum 0 (fs.inodeLength d.inodeNum)).stored, ?_⟩
  simp only [execute, hjam, Bool.false_eq_true, if_false, hlen, parseCommand_shell, hfind,
    executeFile, helf, hmagic, if_true, hroom, hpid]
  rfl

/-- What `close` of a descriptor the caller never set can do to `halt`. -/
theorem resumeParent_cases (k : Kernel) (currPid : Int) (status junkFd : Word) :
    ((Syscall.close (k.giveBack currPid) junkFd).ret = none ∧
      resumeParent k currPid status junkFd =
        ((Syscall.close (k.giveBack currPid) junkFd).kernel, .faulted)) ∨
    ((Syscall.close (k.giveBack currPid) junkFd).ret ≠ none ∧
      resumeParent k currPid status junkFd =
        ({ (Syscall.close (k.giveBack currPid) junkFd).kernel with
            tss := ⟨0x18, kernelStackTop (k.pcb (k.parentSlot (pcbIndex currPid))).pid⟩ },
          .resumed status (k.pcb (pcbIndex currPid)).parentContext)) := by
  unfold resumeParent
  cases hret : (Syscall.close (k.giveBack currPid) junkFd).ret with
  | none => exact Or.inl ⟨rfl, by simp [hret]⟩
  | some v => exact Or.inr ⟨by simp, by simp [hret]⟩

/-- The kernel `halt` works on: the status is taken and the video page unmapped. -/
def Kernel.halting (k : Kernel) : Kernel := { k.unmapVideo with exceptionFlag := false }

/-- **What `halt` can do**: a bottom shell executes a new shell, and goes on as
the others do if that returns; any other process gives back its slot and resumes
its parent. -/
theorem halt_cases (fs : FileSystem) (k : Kernel) (status : Byte) (junk : Nat → Byte)
    (junkFd : Word) (regs : Regs) :
    (k.executing.programPid = k.executing.basePid ∧ ∃ pid arg eip image,
      execute fs k.halting.retire (some shell) junk regs =
        (k.halting.retire.launched pid arg regs, .launched pid eip image) ∧
      halt fs k status junk junkFd regs =
        (k.halting.retire.launched pid arg regs, .launched pid eip image)) ∨
    (k.executing.programPid = k.executing.basePid ∧ ∃ k' v,
      execute fs k.halting.retire (some shell) junk regs = (k', .returned v) ∧
      halt fs k status junk junkFd regs =
        resumeParent k' k.executing.programPid (exitStatus k status) junkFd) ∨
    (k.executing.programPid ≠ k.executing.basePid ∧
      halt fs k status junk junkFd regs =
        resumeParent k.halting k.executing.programPid (exitStatus k status) junkFd) := by
  by_cases hbase : k.executing.programPid = k.executing.basePid
  · have hhalt : halt fs k status junk junkFd regs =
        match execute fs k.halting.retire (some shell) junk regs with
        | (k', .returned _) => resumeParent k' k.executing.programPid (exitStatus k status) junkFd
        | launched => launched := by
      unfold halt
      exact if_pos hbase
    rcases execute_cases fs k.halting.retire (some shell) junk regs with
      ⟨_, heq⟩ | ⟨_, k', _, heq⟩ | ⟨_, pid, arg, eip, image, _, _, heq⟩
    · exact Or.inr (Or.inl ⟨hbase, _, _, heq, by rw [hhalt, heq]⟩)
    · exact Or.inr (Or.inl ⟨hbase, _, _, heq, by rw [hhalt, heq]⟩)
    · exact Or.inl ⟨hbase, pid, arg, eip, image, heq, by rw [hhalt, heq]⟩
  · refine Or.inr (Or.inr ⟨hbase, ?_⟩)
    unfold halt
    exact if_neg hbase

end Cases

end LinuxLikeOS
