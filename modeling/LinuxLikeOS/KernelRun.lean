import LinuxLikeOS.Scheduling
import LinuxLikeOS.Transition

/-! # Runs of the kernel

One event is one whole interrupt handler or one whole system call: the gates mask
interrupts or the handlers do, and where a system call waits, it waits without
changing anything, so the wait is the events that others take meanwhile.  A call
of `read_terminal` that has copied its line and waits for its terminal is two
events, `read` and `lineServed`.

An event carries what the kernel does not decide: the arguments, the interrupted
`esp` and `ebp`, and what uninitialised stack memory holds.  Any sequence of events
is a run; user programs and the keyboard are not trusted to keep any order.

The bytes that a call stores through the caller's pointer are in its result (`CallResult`) and
not in the kernel after it.  With a pointer into the kernel they would overwrite it: results that
speak of any calls in a run ask that they lie in the program page (`StoresInPage`).
-/
namespace LinuxLikeOS
open Transition

/-- What can happen to the kernel. -/
inductive Event
  /-- a timer interrupt, taken at this context -/
  | pitTick (regs : Regs)
  /-- Alt and a function key; `entry` is the context of `switch_terminal`, `frame`
  that of the `execute` it may call -/
  | switchTo (t : Fin 3) (junk : Nat → Byte) (entry frame : Regs)
  | execute (command : Option CString) (junk : Nat → Byte) (regs : Regs)
  | halt (status : Byte) (junk : Nat → Byte) (junkFd : Word) (regs : Regs)
  /-- an exception handler has come as far as its `halt(0)`; the message it prints is left out -/
  | raiseException
  /-- a key that produces a character -/
  | key (c : Byte)
  /-- Ctrl and L -/
  | ctrlL
  | read (fd buf : Word) (old : Nat → Byte) (nbytes : Word)
  /-- a `read_terminal` that has copied its line looks whether it may go on -/
  | lineServed
  | write (fd buf : Word) (text : Nat → Byte) (nbytes : Word)
  | open (filename : Option CString)
  | close (fd : Word)
  | getargs (buf nbytes : Word)
  | vidmap (screenStart : Word)

/-- `keyboard_handler` for a character: it is drawn and collected. -/
def keyPressed (k : Kernel) (c : Byte) : Kernel := getChar (putc k c) c

/-- `keyboard_handler` for Ctrl and L. -/
def ctrlLPressed (k : Kernel) : Kernel :=
  { openTerminal (clear k) with cursorX := 6, cursorY := 0 }

/-- The end of a `read_terminal` that was waiting for its terminal. -/
def serveLine (k : Kernel) : Kernel :=
  if k.currTerminalExecuting = k.currTerminalVisible then clearVisibleLine k else k

/-- The kernel after an event. -/
def kernelStep (fs : FileSystem) (k : Kernel) : Event → Kernel
  | .pitTick regs => (pitHandler k regs).1
  | .switchTo t junk _ frame => (switchTerminal fs k t junk frame).1
  | .execute command junk regs => (execute fs k command junk regs).1
  | .halt status junk junkFd regs => (halt fs k status junk junkFd regs).1
  | .raiseException => raiseException k
  | .key c => keyPressed k c
  | .ctrlL => ctrlLPressed k
  | .read fd buf old nbytes => (Syscall.read fs k fd buf old nbytes).kernel
  | .lineServed => serveLine k
  | .write fd buf text nbytes => (Syscall.write k fd buf text nbytes).kernel
  | .open filename => (Syscall.open fs k filename).kernel
  | .close fd => (Syscall.close k fd).kernel
  | .getargs buf nbytes => (Syscall.getargs k buf nbytes).kernel
  | .vidmap screenStart => (Syscall.vidmap k screenStart).kernel

/-- The kernel as a machine. -/
def kernelMachine (fs : FileSystem) : Machine Kernel Event := ⟨kernelStep fs⟩

/-! ## A small system -/

/-- A file system with one executable, `shell`: one directory entry, one inode and
one data block. -/
def shellImage : FileSystem where
  bootBlock := 0x420000
  mem := fun a =>
    match (a - 0x420000).toNat with
    | 0 | 4 | 8 => 1
    | 64 => 0x73
    | 65 => 0x68
    | 66 => 0x65
    | 67 | 68 => 0x6C
    | 96 => 2
    | 4096 => 28
    | 8192 => 0x7F
    | 8193 => 0x45
    | 8194 => 0x4C
    | 8195 => 0x46
    | 8217 => 0x80
    | 8218 => 0x04
    | 8219 => 0x08
    | _ => 0

theorem shellImage_executable : shellImage.Executable shell :=
  ⟨⟨shell, 2, 0⟩, by decide +kernel, by decide +kernel⟩

/-- A machine whose memory is zero. -/
def zeroHardware : Hardware where
  pcb := fun _ => ⟨fun _ => .cleared, 0, 0, 0, 0, 0, 0, 0, ⟨[], by simp⟩⟩
  video := fun _ => 0
  tables := (0x40A000, 0x40B000)
  rtcRegA := 0x26
  rtcRegB := 0x02

/-- Stack memory of zeros. -/
def noJunk : Nat → Byte := fun _ => 0

end LinuxLikeOS
