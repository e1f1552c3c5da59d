import LinuxLikeOS.CTypes
import Mathlib.Algebra.GroupWithZero.Nat

/-! # The kernel's global state

The globals of `system_call.c`, `terminal.c`, `scheduling.c`, `paging.c` and
`x86_desc.S` that the modelled functions read or write, in one record.  The
kernel runs one handler or system call at a time, so a function of the source is
a function from this record to this record and what it returns.

The `int` flags that only ever hold 0 and 1 (`process[i]`, `active`, `enter`,
`jammer`, `hotjam`, `exception_flag`, the page table bits) are `Bool`s.  Terminal
numbers index `multi_terminal[TERMINAL_NUM]`, so they are `Fin 3`; process
numbers are stored and compared as `int`, so they are `Int`s, with
`get_pcb` truncating them to a byte as its parameter type does.
-/
namespace LinuxLikeOS

/-! ## The sizes of the tables

Terminals, processes, descriptors and page table entries are numbered by numerals. -/

instance neZero_terminals : NeZero 3 := ⟨by decide⟩

instance neZero_processes : NeZero 6 := ⟨by decide⟩

instance neZero_descriptors : NeZero 8 := ⟨by decide⟩

instance neZero_entries : NeZero 1024 := ⟨by decide⟩

/-! ## Processes -/

/-- The jump tables a descriptor can point to. -/
inductive FileOperation
  | stdin
  | stdout
  | file
  | directory
  | rtc
  deriving DecidableEq

/-- `fd_t`; `none` is the NULL jump table. -/
structure FdEntry where
  fileOperation : Option FileOperation
  inode : Word
  filePosition : Word
  flag : Word
  deriving DecidableEq

/-- The descriptor `halt` and `close` leave behind. -/
def FdEntry.cleared : FdEntry := ⟨none, 0, 0, 0⟩

/-- A saved kernel context. -/
structure Regs where
  esp : Word
  ebp : Word
  deriving DecidableEq

/-- `pcb_t`.  `arg` is the NUL-terminated text in the array of that name. -/
structure Pcb where
  fd : Fin 8 → FdEntry
  pid : Word
  parentId : Word
  parentEsp : Word
  parentEbp : Word
  esp : Word
  ebp : Word
  active : Word
  arg : CString

/-- The kernel context `PIT_handler` saves in and loads from a PCB. -/
def Pcb.context (p : Pcb) : Regs := ⟨p.esp, p.ebp⟩

/-- The context in which `halt` leaves the process for its parent. -/
def Pcb.parentContext (p : Pcb) : Regs := ⟨p.parentEsp, p.parentEbp⟩

/-! ## Terminals -/

/-- `terminal_t`.  `keyboardBuffer i` is `keyboard_buffer[i]` for `i < 128`; past
that it is whatever the memory after the array holds, which the kernel may read
but which no modelled function writes. -/
structure Terminal where
  active : Bool
  basePid : Int
  programPid : Int
  keyCount : Int
  enter : Bool
  screenX : Int
  screenY : Int
  keyboardBuffer : Nat → Byte
  terminalVidMem : Word

/-! ## Paging and the task state segment -/

/-- A page directory entry. -/
structure Pde where
  present : Bool
  writable : Bool
  user : Bool
  bigPage : Bool
  pta : BitVec 20
  deriving DecidableEq

/-- A page table entry. -/
structure Pte where
  present : Bool
  writable : Bool
  user : Bool
  pba : BitVec 20
  deriving DecidableEq

/-- The TSS fields a switch of process sets. -/
structure Tss where
  ss0 : Word
  esp0 : Word
  deriving DecidableEq

/-! ## The whole kernel -/

/-- The globals of the kernel.  `video` is the memory at the VGA and backing
pages, by physical address; `cursor` is the position in the VGA cursor registers;
`tables` is where the linker put `page_table_entry` and `page_table_video`. -/
structure Kernel where
  process : Fin 6 → Bool
  pcb : Byte → Pcb
  multiTerminal : Fin 3 → Terminal
  currTerminalVisible : Fin 3
  currTerminalExecuting : Fin 3
  nextTerminalExecuting : Fin 3
  jammer : Bool
  hotjam : Bool
  exceptionFlag : Bool
  pageDirectory : Fin 1024 → Pde
  pageTableVideo : Fin 1024 → Pte
  tables : Word × Word
  tss : Tss
  video : Word → Byte
  cursor : BitVec 16
  cursorX : Word
  cursorY : Word
  rtcRegA : Byte
  rtcRegB : Byte

namespace Kernel
variable (k : Kernel)

/-- `multi_terminal[curr_terminal_visible]`. -/
def visible : Terminal := k.multiTerminal k.currTerminalVisible

/-- `multi_terminal[curr_terminal_executing]`. -/
def executing : Terminal := k.multiTerminal k.currTerminalExecuting

/-- Writes one terminal record. -/
def setTerminal (t : Fin 3) (v : Terminal) : Kernel :=
  { k with multiTerminal := Function.update k.multiTerminal t v }

/-- `process[p] = b`; an index outside the array changes no entry of it. -/
def setProcess (p : Int) (b : Bool) : Kernel :=
  { k with process := fun i => if (i : Int) = p then b else k.process i }

/-- Writes one process control block. -/
def setPcb (i : Byte) (v : Pcb) : Kernel := { k with pcb := Function.update k.pcb i v }

end Kernel

end LinuxLikeOS
