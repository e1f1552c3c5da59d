import LinuxLikeOS.KernelState
import Mathlib.Algebra.BigOperators.Fin
import Mathlib.Algebra.Order.BigOperators.Group.Finset
import Mathlib.Tactic.FinCases

/-! # The process table

The helper functions at the end of `system_call.c`.  `get_pid` takes the first
free entry of `process[]`; `get_current_pid` guesses the current process from the
first free entry; `get_pcb` finds the control block of a process;
`map_physical_memory` points the page directory at its 4MB of memory.
-/
namespace LinuxLikeOS

/-- The index of a control block: `get_pcb` takes a `uint8_t`. -/
def pcbIndex (pid : Int) : Byte := BitVec.ofInt 8 pid

/-- `Eight_MB - Eight_KB * pid - 0x4`, the top of a process's kernel stack. -/
def kernelStackTop (pid : Word) : Word := 0x800000 - 0x2000 * pid - 0x4

/-- The page directory index of `LOAD_ADDR`. -/
def programPde : Fin 1024 := 32

/-- The directory entry of the pages `vidmap` hands out. -/
def videoPde : Fin 1024 := 33

/-- How many entries of a process table are in use. -/
def usedSlots (process : Fin 6 → Bool) : Nat := ∑ i, (process i).toNat

namespace Kernel
variable (k : Kernel)

/-- `get_pcb`. -/
def getPcb (pid : Int) : Pcb := k.pcb (pcbIndex pid)

/-- Where the scans of `get_pid` and `get_current_pid` stop. -/
def firstFree : Option (Fin 6) := Fin.find? fun i => !k.process i

/-- `get_pid`: the slot it takes, and the table with the slot taken. -/
def getPid : Option (Fin 6 × Kernel) :=
  k.firstFree.map fun i => (i, k.setProcess (i : Int) true)

/-- `get_current_pid`. -/
def getCurrentPid : Int :=
  match k.firstFree with
  | none => 5
  | some i => if i = 0 then 0 else (i : Int) - 1

/-- `map_physical_memory`, with `flush_tlb`. -/
def mapPhysicalMemory (pid : Byte) : Kernel :=
  let physicalAddr : Word := 0x800000 + pid.setWidth 32 * 0x400000
  { k with
    pageDirectory := Function.update k.pageDirectory programPde
      ⟨true, true, true, true, physicalAddr.extractLsb' 12 20⟩ }

/-- `multi_terminal[0].active + multi_terminal[1].active + multi_terminal[2].active`. -/
def terminalNum : Nat := ∑ t, (k.multiTerminal t).active.toNat

/-- The reservation test of `execute`: while a terminal is inactive, a process is
refused unless more slots are free than terminals are inactive. -/
def tooManyProcesses : Bool :=
  k.terminalNum < 3 && 3 - (k.terminalNum : Int) ≥ 6 - (usedSlots k.process : Int)

end Kernel

/-! ## The first free slot -/

section Slots
variable {k : Kernel}

theorem firstFree_eq_some {i : Fin 6} :
    k.firstFree = some i ↔ k.process i = false ∧ ∀ j, j < i → k.process j = true := by
  simp [Kernel.firstFree]

theorem firstFree_eq_none : k.firstFree = none ↔ ∀ i, k.process i = true := by
  simp [Kernel.firstFree]

theorem setProcess_fin (k : Kernel) (i : Fin 6) (b : Bool) :
    (k.setProcess (i : Int) b).process = Function.update k.process i b := by
  funext j
  have hiff : ((j : Nat) : Int) = ((i : Nat) : Int) ↔ j = i := by
    rw [Int.natCast_inj, Fin.ext_iff]
  simp only [Kernel.setProcess, Function.update_apply, hiff]

theorem getPid_eq_some {i : Fin 6} {k' : Kernel} :
    k.getPid = some (i, k') ↔ k.firstFree = some i ∧ k' = k.setProcess (i : Int) true := by
  simp only [Kernel.getPid, Option.map_eq_some_iff, Prod.mk.injEq]
  constructor
  · rintro ⟨j, hj, rfl, rfl⟩
    exact ⟨hj, rfl⟩
  · rintro ⟨hi, rfl⟩
    exact ⟨i, hi, rfl, rfl⟩

/-- While slot 0 is in use, `get_current_pid() + 1` is the slot `get_pid` takes. -/
theorem getCurrentPid_add_one {i : Fin 6} (h0 : k.process 0 = true)
    (hi : k.firstFree = some i) : k.getCurrentPid + 1 = (i : Int) := by
  have hne : i ≠ 0 := by
    rintro rfl
    rw [(firstFree_eq_some.mp hi).1] at h0
    cases h0
  simp only [Kernel.getCurrentPid, hi, hne, if_false]
  omega

end Slots

/-! ## Counting slots -/

section Counting
variable {process : Fin 6 → Bool}

/-- Changing one flag changes the number of set flags by that flag. -/
theorem sum_toNat_update {ι : Type} [Fintype ι] [DecidableEq ι] (f : ι → Bool) (i : ι) (b : Bool) :
    ∑ j, (Function.update f i b j).toNat + (f i).toNat = ∑ j, (f j).toNat + b.toNat := by
  have hcomp : (fun j => (Function.update f i b j).toNat) =
      Function.update (fun j => (f j).toNat) i b.toNat := by
    funext j
    by_cases h : j = i
    · subst h; simp
    · simp [h]
  have hsum := Finset.sum_update_of_mem (Finset.mem_univ i) (fun j => (f j).toNat) b.toNat
  have herase := Finset.add_sum_erase Finset.univ (fun j => (f j).toNat) (Finset.mem_univ i)
  rw [Finset.sdiff_singleton_eq_erase] at hsum
  rw [hcomp, hsum, ← herase]
  omega

theorem usedSlots_update (process : Fin 6 → Bool) (i : Fin 6) (b : Bool) :
    usedSlots (Function.update process i b) + (process i).toNat = usedSlots process + b.toNat :=
  sum_toNat_update process i b

theorem usedSlots_le (process : Fin 6 → Bool) : usedSlots process ≤ 6 := by
  have hle : usedSlots process ≤ ∑ _i : Fin 6, 1 :=
    Finset.sum_le_sum fun i _ => Bool.toNat_le (process i)
  simpa using hle

/-- A table with all six entries in use has no free slot, and conversely. -/
theorem usedSlots_eq_six : usedSlots process = 6 ↔ ∀ i, process i = true := by
  constructor
  · intro h i
    cases hi : process i with
    | true => rfl
    | false =>
      have hup := usedSlots_update process i true
      have hle := usedSlots_le (Function.update process i true)
      simp [hi] at hup
      omega
  · intro h
    have : process = fun _ => true := funext h
    subst this
    rfl

end Counting

end LinuxLikeOS
