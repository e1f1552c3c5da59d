import LinuxLikeOS.KernelRun
import LinuxLikeOS.ReaderSteps

/-! # Readers among keys, switches and ticks

A line typed in a terminal should go to a process of that terminal that reads, to one
call, and a call should clear no line but the one it returns.  `read_terminal` looks at
the visible terminal in each of its steps, and the process that takes the step is the
executing terminal's.

The machine here runs the calls of `read_terminal` step by step (`ReaderSteps`) among
keys, switches and ticks.  Its history (`LineLog`) gives every byte of every keyboard
buffer the line it was typed for: the terminal that was visible, and how many lines had
been finished there.  A call that returns leaves a `Return` behind: the lines it copied
and the lines it cleared.  `Isolated` says what these should be, and `Attended` under
which conditions an event keeps it.
-/
namespace LinuxLikeOS
open Transition

/-! ## Readers among interrupts -/

/-- A call of `read_terminal`. -/
structure Reader where
  old : Nat → Byte
  nbytes : Word
  stage : Stage

/-- The call after a step, if it has not returned. -/
def Reader.at (r : Reader) : Stage → Option Reader
  | .returned .. => none
  | stage => some { r with stage := stage }

theorem Reader.eq_of_at {r r' : Reader} {stage : Stage} (h : r.at stage = some r') :
    r' = { r with stage := stage } := by
  cases stage with
  | returned => cases h
  | polling | copying | spinning | clearing => exact (Option.some.inj h).symm

/-- The kernel and the call each terminal's process is in. -/
structure Desk where
  kernel : Kernel
  reader : Fin 3 → Option Reader

/-- What can happen.  A terminal's process goes on where it was; resuming it in another
context is not looked at here. -/
inductive DeskEvent
  | key (c : Byte)
  | ctrlL
  | switchTo (t : Fin 3) (junk : Nat → Byte) (frame : Regs)
  | pitTick (regs : Regs)
  /-- the executing terminal's process calls `read_terminal` -/
  | beginRead (old : Nat → Byte) (nbytes : Word)
  /-- it takes a step of its call -/
  | readerStep

/-- A step of the executing terminal's reader. -/
def Desk.readerStep (d : Desk) : Option Reader → Desk
  | none => d
  | some r =>
    let (k', stage) := readStep r.old r.nbytes (d.kernel, r.stage)
    ⟨k', Function.update d.reader d.kernel.currTerminalExecuting (r.at stage)⟩

/-- The state after an event. -/
def deskStep (fs : FileSystem) (d : Desk) : DeskEvent → Desk
  | .key c => { d with kernel := keyPressed d.kernel c }
  | .ctrlL => { d with kernel := ctrlLPressed d.kernel }
  | .switchTo t junk frame => { d with kernel := (switchTerminal fs d.kernel t junk frame).1 }
  | .pitTick regs => { d with kernel := (pitHandler d.kernel regs).1 }
  | .beginRead old nbytes =>
    match d.reader d.kernel.currTerminalExecuting with
    | some _ => d
    | none =>
      { d with
        reader := Function.update d.reader d.kernel.currTerminalExecuting
          (some ⟨old, nbytes, .polling⟩) }
  | .readerStep => d.readerStep (d.reader d.kernel.currTerminalExecuting)

/-! ## The history -/

/-- A line: the terminal it was typed in, and how many lines had been finished there. -/
abbrev LineId := Fin 3 × Nat

/-- What a call that has returned has done. -/
structure Return where
  reader : Fin 3
  lines : List LineId
  cleared : List LineId
  deriving DecidableEq

/-- The history of a run: the lines finished in each terminal, the line that each byte
of its buffer belongs to, the lines that its reader's current call has copied and
cleared, and the calls that have returned. -/
structure LineLog where
  count : Fin 3 → Nat
  tag : Fin 3 → Nat → Option LineId
  copied : Fin 3 → List LineId
  cleared : Fin 3 → List LineId
  returns : List Return

namespace LineLog
variable (log : LineLog)

/-- `getChar` with the character `c` at `key_count`. -/
def typed (t : Fin 3) (keyCount : Int) (c : Byte) : LineLog :=
  { log with
    tag := Function.update log.tag t
      (if 128 ≤ keyCount then log.tag t
        else if c = 0x08 ∧ 0 < keyCount then
          Function.update (log.tag t) (keyCount - 1).toNat none
        else Function.update (log.tag t) keyCount.toNat (some (t, log.count t)))
    count := Function.update log.count t
      (if c = 0x0A then log.count t + 1 else log.count t) }

/-- The buffer of `t` is set to NUL. -/
def blank (t : Fin 3) : LineLog :=
  { log with tag := Function.update log.tag t fun i => if i < 128 then none else log.tag t i }

/-- A call begins. -/
def begun (t : Fin 3) : LineLog :=
  { log with
    copied := Function.update log.copied t []
    cleared := Function.update log.cleared t [] }

/-- The reader of `t` copies byte `i` of terminal `v`. -/
def copy (t v : Fin 3) (i : Nat) : LineLog :=
  { log with copied := Function.update log.copied t (log.copied t ++ (log.tag v i).toList) }

/-- The reader of `t` clears byte `i` of terminal `v`. -/
def clearByte (t v : Fin 3) (i : Nat) : LineLog :=
  { log with
    cleared := Function.update log.cleared t (log.cleared t ++ (log.tag v i).toList)
    tag := Function.update log.tag v (Function.update (log.tag v) i none) }

/-- The reader of `t` clears all of terminal `v`. -/
def clearAll (t v : Fin 3) : LineLog :=
  { log.blank v with
    cleared := Function.update log.cleared t
      (log.cleared t ++ (List.range 128).filterMap (log.tag v)) }

/-- The reader of `t` returns. -/
def returnFrom (t : Fin 3) : LineLog :=
  { log with returns := log.returns ++ [⟨t, log.copied t, log.cleared t⟩] }

/-- A step of a call of terminal `t` that is at `stage`, with terminal `v` visible. -/
def readerStep (t v : Fin 3) (nbytes : Word) : Stage → LineLog
  | .polling | .returned .. => log
  | .copying i _ => if i < readingTask nbytes then log.copy t v i else log
  | .spinning _ => if t = v then (log.clearAll t v).returnFrom t else log
  | .clearing 0 _ | .clearing 1 _ => log
  | .clearing (i + 2) _ => if i + 2 < clearSteps then log.clearByte t v i else log.returnFrom t

end LineLog

/-- The history after an event. -/
def recordLines (d : Desk) (e : DeskEvent) (log : LineLog) : LineLog :=
  let t := d.kernel.currTerminalExecuting
  let v := d.kernel.currTerminalVisible
  match e with
  | .key c => log.typed v d.kernel.visible.keyCount c
  | .ctrlL => log.blank v
  | .switchTo .. | .pitTick _ => log
  | .beginRead .. =>
    match d.reader t with
    | some _ => log
    | none => log.begun t
  | .readerStep =>
    match d.reader t with
    | some r => log.readerStep t v r.nbytes r.stage
    | none => log

/-- The machine with its history. -/
def deskMachine (fs : FileSystem) : Machine (Desk × LineLog) DeskEvent :=
  (Machine.mk (deskStep fs)).withHistory recordLines

/-- After booting nothing is typed and nobody reads.  What stands in memory behind the
buffers is not known: `after` says which lines it is from. -/
def bootedDesk (fs : FileSystem) (h : Hardware) (junk : Nat → Byte) (regs : Regs)
    (after : Fin 3 → Nat → Option LineId) : Desk × LineLog :=
  (⟨booted fs h junk regs, fun _ => none⟩,
    ⟨fun _ => 0, fun t i => if i < 128 then none else after t i, fun _ => [], fun _ => [], []⟩)

/-! ## Isolation -/

/-- The calls that have returned have returned lines of their own terminals, no line
twice, and have cleared no line that they did not return. -/
structure Isolated (log : LineLog) : Prop where
  own : ∀ r ∈ log.returns, ∀ g ∈ r.lines, g.1 = r.reader
  once : log.returns.Pairwise fun r r' => ∀ g ∈ r.lines, g ∉ r'.lines
  cleared : ∀ r ∈ log.returns, ∀ g ∈ r.cleared, g ∈ r.lines

/-- A reader is in the middle of clearing. -/
def Reader.isClearing : Option Reader → Bool
  | some ⟨_, _, .clearing _ _⟩ => true
  | _ => false

/-- Terminal `t` has a line that is finished and not cleared. -/
def Desk.pending (d : Desk) (t : Fin 3) : Bool :=
  (d.kernel.multiTerminal t).enter || Reader.isClearing (d.reader t)

/-- A step that sees, copies or clears a line is taken with the reader's terminal
visible, and no byte behind the buffer is copied. -/
def StepAttended (k : Kernel) (nbytes : Word) : Stage → Prop
  | .polling => k.visible.enter = true → k.currTerminalVisible = k.currTerminalExecuting
  | .copying i _ =>
    i < readingTask nbytes → k.currTerminalVisible = k.currTerminalExecuting ∧ i < 128
  | .clearing j _ => j < clearSteps → k.currTerminalVisible = k.currTerminalExecuting
  | .spinning _ | .returned .. => True

instance (k : Kernel) (nbytes : Word) : (s : Stage) → Decidable (StepAttended k nbytes s)
  | .polling => inferInstanceAs (Decidable (_ → _))
  | .copying .. => inferInstanceAs (Decidable (_ → _ ∧ _))
  | .clearing .. => inferInstanceAs (Decidable (_ → _))
  | .spinning _ | .returned .. => isTrue trivial

/-- The same for the reader there is, if any. -/
def ReaderAttended (k : Kernel) : Option Reader → Prop
  | some r => StepAttended k r.nbytes r.stage
  | none => True

instance (k : Kernel) : (r : Option Reader) → Decidable (ReaderAttended k r)
  | some r => inferInstanceAs (Decidable (StepAttended k r.nbytes r.stage))
  | none => isTrue trivial

/-- Nothing is typed behind a finished line, no call asks for zero bytes, and a reader
works with its own terminal visible. -/
def Attended (d : Desk) : DeskEvent → Prop
  | .key _ | .ctrlL => d.pending d.kernel.currTerminalVisible = false
  | .beginRead _ nbytes => nbytes ≠ 0
  | .readerStep => ReaderAttended d.kernel (d.reader d.kernel.currTerminalExecuting)
  | .switchTo .. | .pitTick _ => True

instance (d : Desk) : (e : DeskEvent) → Decidable (Attended d e)
  | .key _ | .ctrlL =>
    inferInstanceAs (Decidable (d.pending d.kernel.currTerminalVisible = false))
  | .beginRead _ nbytes => inferInstanceAs (Decidable (nbytes ≠ 0))
  | .readerStep =>
    inferInstanceAs (Decidable (ReaderAttended d.kernel (d.reader d.kernel.currTerminalExecuting)))
  | .switchTo .. | .pitTick _ => isTrue trivial

end LinuxLikeOS
