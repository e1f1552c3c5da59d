import LinuxLikeOS.AddressTranslation
import LinuxLikeOS.MappedStores

/-! # The memories of the processes

The machine has one memory, and each process 4MB of it.  What is stored there is stored through
the page tables in force: by the process that runs, by the kernel through the pointers that the
process passes to `read`, `write`, `getargs` and `vidmap`, and by the loader, once `execute` has
mapped the new process.

So the memory behaves as if every process had 4MB of its own, in which it stores, into which its
calls store and into which it is loaded, and which nobody else touches (`memory_private`,
`memory_undisturbed`).

`read` does not check its buffer, and `execute` does not check how much it loads.  Stores outside
the page of the process may overwrite the kernel, or fault; runs in which that happens are left
out (`Behaves`).
-/
namespace LinuxLikeOS
open Transition PageWalk MappedStores

/-! ## Stores -/

/-- A place in the page of a process. -/
abbrev Offset := Fin (2 ^ 22)

/-- The place of an address, if it is in the program page. -/
def pageOffset (v : Address) : Option Offset :=
  if 0x8000000 ≤ v.toNat ∧ v.toNat < 0x8400000 then some (Fin.ofNat (2 ^ 22) (v.toNat - 0x8000000))
  else none

/-- Where the page of process `p` is in memory. -/
def frameAddress (p : Fin 6) (o : Offset) : Address :=
  BitVec.ofNat 32 (0x800000 + 0x400000 * p + o)

/-- Stores from `a` on. -/
def bytesAt (a : Address) (bytes : List Byte) : List (Address × Byte) :=
  bytes.zipIdx.map fun (b, i) => (a + BitVec.ofNat 32 i, b)

/-- What a system call stores from the caller's pointer on. -/
def bufferStores (fs : FileSystem) (k : Kernel) : Event → List (Address × Byte)
  | .read fd buf old nbytes => bytesAt buf (Syscall.read fs k fd buf old nbytes).stored
  | .write fd buf text nbytes => bytesAt buf (Syscall.write k fd buf text nbytes).stored
  | .getargs buf nbytes => bytesAt buf (Syscall.getargs k buf nbytes).stored
  | .vidmap screenStart => bytesAt screenStart (Syscall.vidmap k screenStart).stored
  | _ => []

/-- What `execute` stores from `LOAD_ADDR` on. -/
def loadStores : Option Control → List (Address × Byte)
  | some (.launched _ _ image) => bytesAt 0x8048000 image
  | _ => []

namespace Kernel

/-- Where an access leads. -/
def reach (k : Kernel) : Access → Address → Option Address :=
  (k.pageTables fun _ _ => Pte.zero.entry).translate

/-- The number of the process that runs. -/
def runner (k : Kernel) : Fin 6 := Fin.ofNat 6 k.executing.programPid.toNat

end Kernel

/-! ## One memory, and six -/

/-- What can happen: an event, or the process that runs stores a byte. -/
inductive Action
  | event (e : Event)
  | store (v : Address) (b : Byte)

/-- The kernel, with the record of faults, and the memory.  Buffers are filled before a call changes
the tables, and programs loaded afterwards. -/
def memoryMachine (fs : FileSystem) :
    Machine ((Kernel × HaltFaults) × (Address → Byte)) Action where
  step c
    | .event e =>
      let c' := (haltFaultMachine fs).step c.1 e
      let filled := storesVia (c.1.1.reach ⟨false, true⟩) c.2 (bufferStores fs c.1.1 e)
      (c', storesVia (c'.1.reach ⟨false, true⟩) filled (loadStores (processControl fs c.1.1 e)))
    | .store v b => (c.1, storeVia (c.1.1.reach ⟨true, true⟩) c.2 (v, b))

/-- Process `p` stores in its own memory. -/
def storeOwn (p : Fin 6) (stores : List (Address × Byte)) (memories : Fin 6 → Offset → Byte) :
    Fin 6 → Offset → Byte :=
  Function.update memories p (storesVia pageOffset (memories p) stores)

/-- A program is loaded into the memory of its process. -/
def loadOwn (memories : Fin 6 → Offset → Byte) : Option Control → Fin 6 → Offset → Byte
  | some (.launched pid eip image) =>
    storeOwn pid (loadStores (some (.launched pid eip image))) memories
  | _ => memories

/-- The kernel and six memories. -/
def privateMachine (fs : FileSystem) :
    Machine ((Kernel × HaltFaults) × (Fin 6 → Offset → Byte)) Action where
  step c
    | .event e =>
      ((haltFaultMachine fs).step c.1 e,
        loadOwn (storeOwn c.1.1.runner (bufferStores fs c.1.1 e) c.2) (processControl fs c.1.1 e))
    | .store v b => (c.1, storeOwn c.1.1.runner [(v, b)] c.2)

/-- What there is of the six memories in the one. -/
def privately (c : (Kernel × HaltFaults) × (Address → Byte)) :
    (Kernel × HaltFaults) × (Fin 6 → Offset → Byte) :=
  (c.1, shares frameAddress c.2)

/-- Openings launch their shells, buffers and programs lie in the page of the process, and a process
whose `halt` has faulted does not come back to user code. -/
def Behaves (fs : FileSystem) (c : (Kernel × HaltFaults) × (Address → Byte)) : Action → Prop
  | .event e => KeepsToPage fs c.1.1 e ∧
      (bufferStores fs c.1.1 e ≠ [] → c.1.2 c.1.1.currTerminalExecuting = false)
  | .store .. => c.1.2 c.1.1.currTerminalExecuting = false

instance (fs : FileSystem) (c : (Kernel × HaltFaults) × (Address → Byte)) :
    (a : Action) → Decidable (Behaves fs c a)
  | .event _ => instDecidableAnd
  | .store .. => inferInstanceAs (Decidable (_ = _))

/-- What a load of the process that runs finds. -/
def fetched (c : (Kernel × HaltFaults) × (Address → Byte)) (v : Address) : Option Byte :=
  (c.1.1.reach ⟨true, false⟩ v).map c.2

/-- The process that runs finds its own memory in its page. -/
def FindsOwn (c : (Kernel × HaltFaults) × (Address → Byte)) (m : Fin 6 → Offset → Byte) : Prop :=
  c.1.2 c.1.1.currTerminalExecuting = false →
    ∀ v o, pageOffset v = some o → fetched c v = some (m c.1.1.runner o)

/-- Process `p` stores nothing, no call stores anything for it, and nothing is loaded into its
memory. -/
def LeavesAlone (fs : FileSystem) (p : Fin 6) (c : (Kernel × HaltFaults) × (Address → Byte)) :
    Action → Prop
  | .event e => (c.1.1.runner = p → bufferStores fs c.1.1 e = []) ∧
      (processControl fs c.1.1 e).bind Control.launchedSlot ≠ some p
  | .store .. => c.1.1.runner ≠ p

instance (fs : FileSystem) (p : Fin 6) (c : (Kernel × HaltFaults) × (Address → Byte)) :
    (a : Action) → Decidable (LeavesAlone fs p c a)
  | .event _ => instDecidableAnd
  | .store .. => inferInstanceAs (Decidable (_ ≠ _))

/-! ## Frames -/

section Frames
variable {k : Kernel} {elsewhere : BitVec 20 → BitVec 10 → Entry} {v w : Address}

theorem pageOffset_eq_some {o : Offset} (h : pageOffset v = some o) :
    (0x8000000 ≤ v.toNat ∧ v.toNat < 0x8400000) ∧ (o : Nat) = v.toNat - 0x8000000 := by
  unfold pageOffset at h
  split at h
  · rename_i hpage
    refine ⟨hpage, ?_⟩
    rw [← Option.some.inj h, Fin.val_ofNat]
    exact Nat.mod_eq_of_lt (by omega)
  · cases h

theorem pageOffset_eq_none (h : pageOffset v = none) :
    ¬(0x8000000 ≤ v.toNat ∧ v.toNat < 0x8400000) := by
  intro hpage
  rw [pageOffset, if_pos hpage] at h
  cases h

theorem toNat_frameAddress (p : Fin 6) (o : Offset) :
    (frameAddress p o).toNat = 0x800000 + 0x400000 * p + o := by
  rw [frameAddress, BitVec.toNat_ofNat]
  have hp := p.isLt
  have ho := o.isLt
  omega

/-- The pages of the processes have no byte in common. -/
theorem frameAddress_inj (p q : Fin 6) (o o' : Offset) (h : frameAddress p o = frameAddress q o') :
    p = q ∧ o = o' := by
  have hval := congrArg BitVec.toNat h
  rw [toNat_frameAddress, toNat_frameAddress] at hval
  have ho := o.isLt
  have ho' := o'.isLt
  exact ⟨Fin.ext (by omega), Fin.ext (by omega)⟩

/-- Outside the program page nothing leads above the kernel's page. -/
theorem PagesMapped.outside (h : PagesMapped k) {a : Access}
    (hreach : (k.pageTables elsewhere).translate a v = some w) (hv : pageOffset v = none) :
    w.toNat < 0x800000 := by
  have hindex : directoryIndex v ≠ programPde := by
    have hpage := pageOffset_eq_none hv
    rw [Ne, Fin.ext_iff, directoryIndex_val]
    show ¬_ = 32
    omega
  have habove := above_eq k elsewhere v
  have hoffset := toNat_offset v
  -- a page of a table is at most the last of the first 4MB
  have hsmall : (k.pageDirectory (directoryIndex v)).present = true →
      (k.pageDirectory (directoryIndex v)).bigPage = false →
      ((k.pageTables elsewhere).below v).frame.toNat < 1024 → w.toNat < 0x800000 := by
    intro hpresent htable hframe
    rw [translate_small (by rw [habove]; exact hpresent) (by rw [habove]; exact htable)] at hreach
    split at hreach
    · rw [← Option.some.inj hreach, toNat_frame_append, hoffset]
      omega
    · cases hreach
  have hfirst : (pageTableEntry (tableIndex v)).pba.toNat < 1024 := by
    have hindex := (tableIndex v).isLt
    rw [pageTableEntry_pba, BitVec.toNat_ofNat]
    omega
  rcases h.cases (directoryIndex v) with
    hprogram | ⟨-, he⟩ | ⟨-, he⟩ | ⟨-, he⟩ | ⟨-, he⟩
  · exact absurd hprogram hindex
  · refine hsmall (by rw [he]) (by rw [he]) ?_
    rw [below_eq, he, if_pos rfl]
    exact hfirst
  · rw [he] at habove
    obtain ⟨w', hw', heq⟩ := translate_large (t := k.pageTables elsewhere) (v := v)
      (by rw [habove]; rfl) (by rw [habove]; rfl) (by rw [habove]; rfl)
    rw [heq] at hreach
    split at hreach
    · rw [← Option.some.inj hreach, hw', habove]
      show 4096 * 0x400 + _ < _
      omega
    · cases hreach
  · refine hsmall (by rw [he]) (by rw [he]) ?_
    rw [below_eq, he]
    split
    · exact hfirst
    · -- `vidmap` hands out the VGA page and frame 0
      rw [if_pos rfl]
      show (k.pageTableVideo (tableIndex v)).pba.toNat < 1024
      rcases (h.video (tableIndex v)).2 with hzero | hvga
      · rw [hzero]
        decide
      · rw [hvga]
        decide
  · rw [translate_absent (by rw [habove]; exact he)] at hreach
    cases hreach

/-- **Stores reach the page of the process** that is mapped, and no other. -/
theorem PagesMapped.belongs (h : PagesMapped k)
    (hdistinct : frameOf k.tables.1 ≠ frameOf k.tables.2)
    {p : Fin 6} (hpage : k.pageDirectory programPde = programPage (View.slotOf p)) (a : Access) :
    Belongs frameAddress pageOffset p (k.reach a) where
  own v o hv := by
    obtain ⟨⟨hlow, hhigh⟩, ho⟩ := pageOffset_eq_some hv
    have hconfined : Confined p k.reach := h.confined hdistinct hpage
    obtain ⟨w, hw, hwhere⟩ := hconfined.own a.write v hlow hhigh
    have hframe : w = frameAddress p o := by
      apply BitVec.eq_of_toNat_eq
      rw [toNat_frameAddress, hwhere, ho]
    subst hframe
    obtain ⟨user, write⟩ := a
    cases user with
    | true => exact hw
    | false => exact translateBy_supervisor hw write
  other v w hv hw q o hcell := by
    have hlow := h.outside hw hv
    rw [← hcell, toNat_frameAddress] at hlow
    omega

end Frames

/-! ## The memory behaves as six -/

section Steps
variable {fs : FileSystem} {tables : Word × Word} {c : (Kernel × HaltFaults) × (Address → Byte)}

theorem runner_eq {k : Kernel} {p : Fin 6} (h : k.executing.programPid = p) : k.runner = p := by
  rw [Kernel.runner, h, Int.toNat_natCast]
  exact Fin.ext (Nat.mod_eq_of_lt p.isLt)

/-- The process that runs has its page in force. -/
theorem Furnished.belongs (h : Furnished tables c.1)
    (hdistinct : frameOf tables.1 ≠ frameOf tables.2)
    (hfault : c.1.2 c.1.1.currTerminalExecuting = false) (a : Access) :
    Belongs frameAddress pageOffset c.1.1.runner (c.1.1.reach a) := by
  obtain ⟨p, hprogram, hpage, -, -⟩ := h.sheltered.2 hfault
  rw [runner_eq hprogram]
  exact h.mapped.belongs (by rwa [h.tables]) hpage a

theorem page_execute {k k' : Kernel} {command : Option CString} {junk : Nat → Byte} {regs : Regs}
    {pid : Fin 6} {eip : Word} {image : List Byte}
    (h : execute fs k command junk regs = (k', .launched pid eip image)) :
    k'.pageDirectory programPde = programPage (View.slotOf pid) := by
  rcases execute_cases fs k command junk regs with
    ⟨_, heq⟩ | ⟨_, _, _, heq⟩ | ⟨_, q, arg, _, _, _, _, heq⟩
  · rw [heq] at h
    cases h
  · rw [heq] at h
    cases h
  · rw [heq] at h
    obtain ⟨hk', hcontrol⟩ := Prod.mk.inj h
    obtain ⟨rfl, -, -⟩ := Control.launched.inj hcontrol
    rw [← hk']
    exact congrArg Scene.page (scene_launched (k := k) q arg regs)

/-- A launch leaves the page of the new process in force. -/
theorem page_of_launched {k : Kernel} {e : Event} {pid : Fin 6} {eip : Word} {image : List Byte}
    (h : processControl fs k e = some (.launched pid eip image)) :
    (kernelStep fs k e).pageDirectory programPde = programPage (View.slotOf pid) := by
  cases e with
  | execute command junk regs => exact page_execute (Prod.ext rfl (Option.some.inj h))
  | switchTo t junk entry frame =>
    have hcontrol : (switchTerminal fs k t junk frame).2 = .launched pid eip image :=
      Option.some.inj h
    rw [kernelStep]
    rcases switchTerminal_cases fs k t junk frame with
      ⟨_, heq⟩ | ⟨_, _, heq⟩ | ⟨_, _, heq⟩
    · rw [heq] at hcontrol
      cases hcontrol
    · rw [heq] at hcontrol
      cases hcontrol
    · rw [heq] at hcontrol ⊢
      exact page_execute (Prod.ext rfl hcontrol)
  | halt status junk junkFd regs =>
    have hcontrol : (halt fs k status junk junkFd regs).2 = .launched pid eip image :=
      Option.some.inj h
    rw [kernelStep]
    rcases halt_cases fs k status junk junkFd regs with
      ⟨_, q, arg, eip', image', hrun, heq⟩ | ⟨_, _, _, _, heq⟩ | ⟨_, heq⟩
    · rw [heq] at hcontrol ⊢
      obtain ⟨rfl, -, -⟩ := Control.launched.inj hcontrol
      exact page_execute hrun
    · -- the parent is resumed
      have hparent := congrArg Control.launchedSlot hcontrol
      rw [heq, launchedSlot_resumeParent] at hparent
      cases hparent
    · have hparent := congrArg Control.launchedSlot hcontrol
      rw [heq, launchedSlot_resumeParent] at hparent
      cases hparent
  | _ => cases h

theorem storeOwn_nil (p : Fin 6) (memories : Fin 6 → Offset → Byte) :
    storeOwn p [] memories = memories := Function.update_eq_self p memories

/-- A call fills its buffer in the memory of the process. -/
theorem shares_filled (h : Furnished tables c.1) (hdistinct : frameOf tables.1 ≠ frameOf tables.2)
    {e : Event} (he : bufferStores fs c.1.1 e ≠ [] → c.1.2 c.1.1.currTerminalExecuting = false) :
    shares frameAddress (storesVia (c.1.1.reach ⟨false, true⟩) c.2 (bufferStores fs c.1.1 e)) =
      storeOwn c.1.1.runner (bufferStores fs c.1.1 e) (shares frameAddress c.2) := by
  by_cases hnone : bufferStores fs c.1.1 e = []
  · rw [hnone, storeOwn_nil]
    rfl
  · exact (h.belongs hdistinct (he hnone) _).storesVia_eq frameAddress_inj c.2 _

/-- A program is loaded into the memory of its process. -/
theorem shares_loaded {k : Kernel} {e : Event} (h : PagesMapped (kernelStep fs k e))
    (hdistinct : frameOf (kernelStep fs k e).tables.1 ≠ frameOf (kernelStep fs k e).tables.2)
    (memory : Address → Byte) :
    shares frameAddress (storesVia ((kernelStep fs k e).reach ⟨false, true⟩) memory
        (loadStores (processControl fs k e))) =
      loadOwn (shares frameAddress memory) (processControl fs k e) := by
  cases hcontrol : processControl fs k e with
  | none => rfl
  | some control =>
    cases control with
    | launched pid eip image =>
      exact (h.belongs hdistinct (page_of_launched hcontrol) _).storesVia_eq
        frameAddress_inj memory _
    | returned | resumed | faulted => rfl

theorem privately_step (h : Furnished tables c.1) (hdistinct : frameOf tables.1 ≠ frameOf tables.2)
    (hshell : fs.Executable shell) {a : Action} (ha : Behaves fs c a) :
    privately ((memoryMachine fs).step c a) = (privateMachine fs).step (privately c) a := by
  cases a with
  | event e =>
    obtain ⟨⟨hopens, -⟩, hfault⟩ := ha
    have hnext := h.step hshell hopens
    have htables : (kernelStep fs c.1.1 e).tables = tables := hnext.tables
    have hloaded := shares_loaded (e := e) hnext.mapped (by rwa [htables])
      (storesVia (c.1.1.reach ⟨false, true⟩) c.2 (bufferStores fs c.1.1 e))
    rw [shares_filled h hdistinct hfault] at hloaded
    exact Prod.ext rfl hloaded
  | store v b =>
    exact Prod.ext rfl ((h.belongs hdistinct ha _).storeVia_eq frameAddress_inj c.2 (v, b))

/-- A step keeps the invariant of the kernel. -/
theorem furnished_step (hshell : fs.Executable shell) (h : Furnished tables c.1) {a : Action}
    (ha : Behaves fs c a) : Furnished tables ((memoryMachine fs).step c a).1 := by
  cases a with
  | event e => exact h.step hshell ha.1.1
  | store v b => exact h

/-- Whom a step leaves alone finds its memory as it was. -/
theorem private_step {p : Fin 6} {m : Fin 6 → Offset → Byte} {a : Action}
    (ha : LeavesAlone fs p c a) : ((privateMachine fs).step (c.1, m) a).2 p = m p := by
  have hother : ∀ {q : Fin 6} (stores : List (Address × Byte)), (q = p → stores = []) →
      ∀ m : Fin 6 → Offset → Byte, storeOwn q stores m p = m p := by
    intro q stores hq m
    by_cases hqp : q = p
    · rw [hq hqp, storeOwn_nil]
    · exact Function.update_of_ne (Ne.symm hqp) _ _
  cases a with
  | event e =>
    obtain ⟨hbuffer, hlaunch⟩ := ha
    have hfilled := hother _ hbuffer m
    show loadOwn (storeOwn c.1.1.runner (bufferStores fs c.1.1 e) m)
      (processControl fs c.1.1 e) p = _
    generalize storeOwn c.1.1.runner (bufferStores fs c.1.1 e) m = filled at hfilled
    generalize processControl fs c.1.1 e = control at hlaunch
    cases control with
    | none => exact hfilled
    | some control =>
      cases control with
      | launched pid eip image =>
        exact (hother _ (fun heq => absurd (congrArg some heq) hlaunch) filled).trans hfilled
      | returned | resumed | faulted => exact hfilled
  | store v b => exact hother _ (fun heq => absurd heq ha) m

end Steps

/-! ## Over whole runs -/

section Runs
variable {fs : FileSystem}

/-- The kernel before `entry` executes the first shell, with this in the memory. -/
def initialMemory (h : Hardware) (memory : Address → Byte) :
    (Kernel × HaltFaults) × (Address → Byte) :=
  ((initialised h, fun _ => false), memory)

/-- The first shell is executed. -/
def bootedMemory (fs : FileSystem) (h : Hardware) (junk : Nat → Byte) (regs : Regs)
    (memory : Address → Byte) : (Kernel × HaltFaults) × (Address → Byte) :=
  (memoryMachine fs).step (initialMemory h memory) (.event (.execute (some shell) junk regs))

/-- **Private memories.**  In every run in which openings launch their shells, the buffers that
processes pass and the programs that are loaded lie in the program page, and no process whose
`halt` has faulted stores anything: each process finds in its 4MB exactly what it has stored there
itself, what its calls have stored for it, and what was loaded there when it was launched, as if
it had a memory of its own. -/
theorem memory_private (hshell : fs.Executable shell) (h : Hardware)
    (hdistinct : frameOf h.tables.1 ≠ frameOf h.tables.2) (junk : Nat → Byte) (regs : Regs)
    (memory : Address → Byte) (actions : List Action)
    (hg : (memoryMachine fs).Guarded (Behaves fs) (initialMemory h memory)
      (.event (.execute (some shell) junk regs) :: actions)) :
    privately ((memoryMachine fs).run (bootedMemory fs h junk regs memory) actions) =
        (privateMachine fs).run (privately (bootedMemory fs h junk regs memory)) actions ∧
      FindsOwn ((memoryMachine fs).run (bootedMemory fs h junk regs memory) actions)
        ((privateMachine fs).run (privately (bootedMemory fs h junk regs memory)) actions).2 := by
  have hfurnished : Furnished h.tables (bootedMemory fs h junk regs memory).1 :=
    furnished_booted hshell h junk regs
  have hbehaves : (memoryMachine fs).Guarded (Behaves fs) (bootedMemory fs h junk regs memory)
      actions := hg.2
  have hrun : privately ((memoryMachine fs).run (bootedMemory fs h junk regs memory) actions) =
      (privateMachine fs).run (privately (bootedMemory fs h junk regs memory)) actions :=
    Machine.run_commutes (I := fun c => Furnished h.tables c.1)
      (fun _ _ hc ha => furnished_step hshell hc ha)
      (fun _ _ hc ha => privately_step hc hdistinct hshell ha) hfurnished hbehaves
  have hlast := (Machine.always_of_step (I := fun c => Furnished h.tables c.1)
    (fun _ _ hc ha => furnished_step hshell hc ha) hfurnished hbehaves).last
  refine ⟨hrun, fun hfault v o hv => ?_⟩
  rw [← hrun, fetched, (hlast.belongs hdistinct hfault ⟨true, false⟩).own v o hv]
  rfl

/-- Two terminals run programs, which store in their pages. -/
def storingTerminals : List Action :=
  .store 0x8048100 1 :: twoTerminals.flatMap fun e => [.event e, .store 0x8048100 2]

theorem memory_private_storingTerminals :
    privately ((memoryMachine shellImage).run (bootedMemory shellImage zeroHardware noJunk
        ⟨0x7FFF00, 0x7FFF40⟩ fun _ => 0) storingTerminals) =
        (privateMachine shellImage).run (privately (bootedMemory shellImage zeroHardware noJunk
          ⟨0x7FFF00, 0x7FFF40⟩ fun _ => 0)) storingTerminals ∧
      FindsOwn ((memoryMachine shellImage).run (bootedMemory shellImage zeroHardware noJunk
          ⟨0x7FFF00, 0x7FFF40⟩ fun _ => 0) storingTerminals)
        ((privateMachine shellImage).run (privately (bootedMemory shellImage zeroHardware noJunk
          ⟨0x7FFF00, 0x7FFF40⟩ fun _ => 0)) storingTerminals).2 :=
  memory_private shellImage_executable zeroHardware (by decide) noJunk ⟨0x7FFF00, 0x7FFF40⟩ _
    storingTerminals (by decide +kernel)

/-- **No process disturbs another.**  In such a run a process that is left alone for a while finds
its memory as it was, whatever the others store and launch meanwhile, and whichever buffers in
the page they pass to the kernel. -/
theorem memory_undisturbed (hshell : fs.Executable shell) (h : Hardware)
    (hdistinct : frameOf h.tables.1 ≠ frameOf h.tables.2) (junk : Nat → Byte) (regs : Regs)
    (memory : Address → Byte) (before meanwhile : List Action)
    (hg : (memoryMachine fs).Guarded (Behaves fs) (initialMemory h memory)
      (.event (.execute (some shell) junk regs) :: (before ++ meanwhile))) {p : Fin 6}
    (hp : (memoryMachine fs).Guarded (LeavesAlone fs p)
      ((memoryMachine fs).run (bootedMemory fs h junk regs memory) before) meanwhile) :
    (privately ((memoryMachine fs).run (bootedMemory fs h junk regs memory)
        (before ++ meanwhile))).2 p =
      (privately ((memoryMachine fs).run (bootedMemory fs h junk regs memory) before)).2 p := by
  have hbooted : Furnished h.tables (bootedMemory fs h junk regs memory).1 :=
    furnished_booted hshell h junk regs
  have hbehaves : (memoryMachine fs).Guarded (Behaves fs) (bootedMemory fs h junk regs memory)
      (before ++ meanwhile) := hg.2
  obtain ⟨hbefore, hmeanwhile⟩ := Machine.guarded_append.mp hbehaves
  have hfurnished := (Machine.always_of_step (I := fun c => Furnished h.tables c.1)
    (fun _ _ hc ha => furnished_step hshell hc ha) hbooted hbefore).last
  rw [Machine.run_append]
  generalize (memoryMachine fs).run (bootedMemory fs h junk regs memory) before = c at *
  clear hg hbehaves hbooted
  induction meanwhile generalizing c with
  | nil => rfl
  | cons a meanwhile ih =>
    have hstep : (privately ((memoryMachine fs).step c a)).2 p = (privately c).2 p := by
      rw [privately_step hfurnished hdistinct hshell hmeanwhile.1]
      exact private_step hp.1
    exact (ih _ hp.2 hmeanwhile.2 (furnished_step hshell hfurnished hmeanwhile.1)).trans hstep

/-- While the programs of two terminals run, the first shell finds its byte where it was. -/
theorem memory_undisturbed_firstShell :
    (privately ((memoryMachine shellImage).run (bootedMemory shellImage zeroHardware noJunk
        ⟨0x7FFF00, 0x7FFF40⟩ fun _ => 0) ([.store 0x8048100 1] ++
          (twoTerminals.take 5).flatMap fun e => [.event e, .store 0x8048100 2]))).2 0 =
      (privately ((memoryMachine shellImage).run (bootedMemory shellImage zeroHardware noJunk
        ⟨0x7FFF00, 0x7FFF40⟩ fun _ => 0) [.store 0x8048100 1])).2 0 :=
  memory_undisturbed shellImage_executable zeroHardware (by decide) noJunk ⟨0x7FFF00, 0x7FFF40⟩ _
    _ _ (by decide +kernel) (by decide +kernel)

end Runs

end LinuxLikeOS
