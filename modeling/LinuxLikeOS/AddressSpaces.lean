import LinuxLikeOS.SlotReservation
import LinuxLikeOS.SlotOwnership

/-! # The address space of the process that runs

The page directory entry of the program page and the kernel stack in the TSS belong to one
process at a time.  Three functions set them, each from another source: `execute` from the
slot it has taken, `halt` from the number in the parent's control block, and `PIT_handler`
from both `program_pid` and the number in that control block.  They agree because every
control block that `program_pid` or a `parent_id` leads to holds its own number: it is one
in which a process has been launched (`Housed`).

`halt` sets the page directory first and the kernel stack last, and may fault in between,
when the descriptor it closes has no jump table.  The history of a run remembers in which
terminals this has happened (`HaltFaults`): their processes are in the page fault handler,
which halts them again, and have not returned to user code.
-/
namespace LinuxLikeOS
open Transition

/-! ## Coherence -/

/-- The page directory entry maps a user page of 4MB at this physical address. -/
def MapsProgram (e : Pde) (address : Nat) : Prop :=
  e.present = true ∧ e.user = true ∧ e.bigPage = true ∧ e.pta.toNat * 4096 = address

/-- The program page is that of the process that runs, the kernel stack is its stack, and
its control block holds its number. -/
def Coherent (k : Kernel) : Prop :=
  ∃ p : Fin 6, k.executing.programPid = p ∧
    MapsProgram (k.pageDirectory programPde) (8 * 2 ^ 20 + 4 * 2 ^ 20 * p) ∧
    k.tss.esp0.toNat = 8 * 2 ^ 20 - 8 * 2 ^ 10 * p - 4 ∧
    (k.getPcb p).pid = BitVec.ofNat 32 p

/-- Opening a terminal launches its shell. -/
def OpensShell (fs : FileSystem) (k : Kernel) : Event → Prop
  | .switchTo t junk _ frame => t ≠ k.currTerminalVisible → (k.multiTerminal t).active = false →
      (switchTerminal fs k t junk frame).2.launchedSlot ≠ none
  | _ => True

instance (fs : FileSystem) (k : Kernel) : (e : Event) → Decidable (OpensShell fs k e)
  | .switchTo t junk _ frame => inferInstanceAs (Decidable
      (t ≠ k.currTerminalVisible → (k.multiTerminal t).active = false →
        (switchTerminal fs k t junk frame).2.launchedSlot ≠ none))
  | .pitTick _ | .execute .. | .halt .. | .raiseException | .key _ | .ctrlL | .read .. | .lineServed
  | .write .. | .open _ | .close _ | .getargs .. | .vidmap _ => isTrue trivial

/-- The terminals whose process has faulted in its last `halt`. -/
abbrev HaltFaults := Fin 3 → Bool

/-- The record after an event. -/
def recordHaltFault (fs : FileSystem) (k : Kernel) (e : Event) (faults : HaltFaults) : HaltFaults :=
  match e with
  | .halt status junk junkFd regs =>
    Function.update faults k.currTerminalExecuting
      (halt fs k status junk junkFd regs).2.hasFaulted
  | _ => faults

/-- The kernel with this record. -/
def haltFaultMachine (fs : FileSystem) : Machine (Kernel × HaltFaults) Event :=
  (kernelMachine fs).withHistory (recordHaltFault fs)

/-- The process that runs has the address space it needs, or is in the page fault handler. -/
def CoherentInUserCode (c : Kernel × HaltFaults) : Prop :=
  c.2 c.1.currTerminalExecuting = false → Coherent c.1

/-! ## Control blocks that hold their own number -/

/-- The slots in `L` have been launched in: their control blocks hold their own numbers, and
their parents are such slots. -/
structure Blocks (v : View) (L : Fin 6 → Prop) : Prop where
  used : ∀ p, v.process p = true → L p
  numbered : ∀ p, L p → v.pid (View.slotOf p) = BitVec.ofNat 32 p
  parents : ∀ p, L p → ∃ q, L q ∧ v.parentId (View.slotOf p) = BitVec.ofNat 32 q

/-- Every terminal runs a process in a slot that has been launched in, and does so after
each event.  An opening while slot 0 is free computes the number 1, so slot 1 has to have
been launched in by then (`second`). -/
structure Housed (v : View) (L : Fin 6 → Prop) : Prop extends Blocks v L where
  programs : ∀ t, v.active t = true → ∃ p, L p ∧ v.programPid t = p
  executing : v.active v.executing = true
  first : v.active 0 = true
  base : v.basePid 0 = 0
  second : (v.process 0 = false ∨ ∃ t, t ≠ 0 ∧ v.active t = true) → L 1
  reserved : v.Reserved

section Launching
variable {v : View} {L : Fin 6 → Prop}

/-- A launch whose parent is such a slot, or the new one itself. -/
theorem Blocks.launch (h : Blocks v L) (pid : Fin 6) {q : Fin 6} (hq : L q ∨ q = pid)
    (hprogram : v.programPid v.executing = q) (regs : Regs) :
    Blocks (v.launch pid regs) fun p => L p ∨ p = pid where
  used := by
    intro p hp
    by_cases hpid : p = pid
    · exact Or.inr hpid
    · refine Or.inl (h.used p ?_)
      simpa [View.launch, hpid] using hp
  numbered := by
    intro p hp
    by_cases hpid : p = pid
    · simp [View.launch, hpid]
    · have hne : View.slotOf p ≠ View.slotOf pid := fun heq => hpid (slotOf_inj.mp heq)
      simp [View.launch, hne, h.numbered p (hp.resolve_right hpid)]
  parents := by
    intro p hp
    by_cases hpid : p = pid
    · exact ⟨q, hq, by simp [View.launch, hpid, hprogram]⟩
    · have hne : View.slotOf p ≠ View.slotOf pid := fun heq => hpid (slotOf_inj.mp heq)
      obtain ⟨r, hr, hlink⟩ := h.parents p (hp.resolve_right hpid)
      exact ⟨r, Or.inl hr, by simp [View.launch, hne, hlink]⟩

/-- The first free slot is 1, or slot 1 has been launched in. -/
theorem Blocks.second_of_firstFree (h : Blocks v L) {pid : Fin 6} (hslot : v.firstFree = some pid)
    (hzero : v.process 0 = false → L 1) : L 1 ∨ 1 = pid := by
  obtain ⟨hfree, hlow⟩ := View.firstFree_eq_some.mp hslot
  by_cases hpid : pid = 0
  · rw [hpid] at hfree
    exact Or.inl (hzero hfree)
  · by_cases hone : pid = 1
    · exact Or.inr hone.symm
    · exact Or.inl (h.used 1 (hlow 1 (by omega)))

/-- The processes of the terminals after a launch. -/
theorem programs_launch {pid : Fin 6} {regs : Regs}
    (h : ∀ t, t ≠ v.executing → v.active t = true → ∃ p, L p ∧ v.programPid t = p) :
    ∀ t, (v.launch pid regs).active t = true →
      ∃ p, (L p ∨ p = pid) ∧ (v.launch pid regs).programPid t = p := by
  intro t ht
  by_cases hexec : t = v.executing
  · exact ⟨pid, Or.inr rfl, by simp [View.launch, hexec]⟩
  · simp only [View.launch, Function.update_of_ne hexec] at ht ⊢
    obtain ⟨p, hp, hprogram⟩ := h t hexec ht
    exact ⟨p, Or.inl hp, hprogram⟩

end Launching

/-! ## Every move keeps them -/

section Moves
variable {fs : FileSystem} {v : View} {L : Fin 6 → Prop}

/-- `execute` starts a child of the process that runs. -/
theorem Housed.launch (h : Housed v L) {pid : Fin 6} (hslot : v.firstFree = some pid)
    (hroom : v.activate.HasRoom) (regs : Regs) :
    Housed (v.launch pid regs) fun p => L p ∨ p = pid := by
  obtain ⟨q, hq, hprogram⟩ := h.programs _ h.executing
  have hactive : (v.launch pid regs).active = v.active := by
    show Function.update v.active v.executing true = v.active
    rw [← h.executing, Function.update_eq_self]
  refine ⟨h.toBlocks.launch pid (Or.inl hq) hprogram regs,
    programs_launch fun t _ => h.programs t, Function.update_self .., ?_, h.base, ?_,
    hroom.reserved hslot regs⟩
  · rw [hactive]
    exact h.first
  · rw [hactive]
    rintro (hzero | hother)
    · refine Or.inl (h.second (Or.inl ?_))
      by_contra hused
      have hne : (0 : Fin 6) ≠ pid := by
        rintro rfl
        exact hused (View.firstFree_eq_some.mp hslot).1
      simp [View.launch, hne, hused] at hzero
    · exact Or.inl (h.second (Or.inr hother))

/-- The first shell of a terminal is its own parent, unless slot 0 was free. -/
theorem Housed.opened (h : Housed v L) {t : Fin 3} (hinactive : v.active t = false) {pid : Fin 6}
    (hslot : v.firstFree = some pid)
    (hroom : (v.open_ t (v.guess + 1)).HasRoom) (regs : Regs) :
    Housed ((v.open_ t (v.guess + 1)).launch pid regs) fun p => L p ∨ p = pid := by
  have hactivate : (v.open_ t (v.guess + 1)).activate = v.open_ t (v.guess + 1) := by
    simp only [View.activate, View.open_, Function.update_idem]
  have hactive : ((v.open_ t (v.guess + 1)).launch pid regs).active =
      Function.update v.active t true := by
    simp only [View.launch, View.open_, Function.update_idem]
  have hne : (0 : Fin 3) ≠ t := by
    rintro rfl
    rw [h.first] at hinactive
    cases hinactive
  have hsecond := h.toBlocks.second_of_firstFree hslot fun hzero => h.second (Or.inl hzero)
  have hparent : ∃ q, (L q ∨ q = pid) ∧ v.guess + 1 = (q : Fin 6) := by
    by_cases hzero : pid = 0
    · refine ⟨1, hsecond, ?_⟩
      simp [View.guess, hslot, hzero]
    · refine ⟨pid, Or.inr rfl, ?_⟩
      simp only [View.guess, hslot, hzero, if_false]
      omega
  obtain ⟨q, hq, hguess⟩ := hparent
  have hblocks : Blocks (v.open_ t (v.guess + 1)) L := ⟨h.used, h.numbered, h.parents⟩
  refine ⟨hblocks.launch pid hq ?_ regs, programs_launch ?_, Function.update_self .., ?_, ?_,
    fun _ => hsecond, ?_⟩
  · rw [← hguess]
    exact Function.update_self ..
  · intro u hu hact
    have hut : u ≠ t := hu
    simp only [View.open_, Function.update_of_ne hut] at hact ⊢
    exact h.programs u hact
  · rw [hactive, Function.update_of_ne hne]
    exact h.first
  · exact (Function.update_of_ne hne ..).trans h.base
  · rw [← hactivate] at hroom
    exact hroom.reserved hslot regs

/-- A bottom shell is renewed as a child of its old slot. -/
theorem Housed.renewed (h : Housed v L) {pid : Fin 6} (hslot : v.retire.firstFree = some pid)
    (hroom : v.retire.activate.HasRoom) (regs : Regs) :
    Housed (v.retire.launch pid regs) fun p => L p ∨ p = pid := by
  obtain ⟨q, hq, hprogram⟩ := h.programs _ h.executing
  have hactive : (v.retire.launch pid regs).active = v.active := by
    show Function.update (Function.update v.active v.executing false) v.executing true = v.active
    rw [Function.update_idem, ← h.executing, Function.update_eq_self]
  have hblocks : Blocks v.retire L :=
    ⟨fun p hp => h.used p (View.retire_process hp), h.numbered, h.parents⟩
  refine ⟨hblocks.launch pid (Or.inl hq) hprogram regs, programs_launch ?_,
    Function.update_self .., ?_, h.base, ?_, hroom.reserved hslot regs⟩
  · intro t ht hact
    have hne : t ≠ v.executing := ht
    refine h.programs t ?_
    simpa [View.retire, hne] using hact
  · rw [hactive]
    exact h.first
  · rw [hactive]
    rintro (hzero | hother)
    · -- slot 0 is still free, so it is not the first free slot, which has just been taken
      obtain ⟨hfree, hlow⟩ := View.firstFree_eq_some.mp hslot
      have hne : (0 : Fin 6) ≠ pid := by
        rintro rfl
        simp [View.launch] at hzero
      have hused := hlow 0 (Fin.pos_iff_ne_zero.mpr hne.symm)
      simp [View.launch, hne, hused] at hzero
    · exact Or.inl (h.second (Or.inr hother))

/-- A process gives way to its parent, whose control block holds its own number. -/
theorem Housed.giveBack (h : Housed v L) {slot : Byte}
    (hslot : slot = v.current) (hsecond : (v.giveBack slot).process 0 = false → L 1) :
    Housed (v.giveBack slot) L := by
  obtain ⟨p, hp, hprogram⟩ := h.programs _ h.executing
  obtain ⟨q, hq, hlink⟩ := h.parents p hp
  have hcurrent : slot = View.slotOf p := by
    rw [hslot, View.current, hprogram]
    rfl
  have hparent : (v.pid ((v.parentId slot).setWidth 8)).toInt = q := by
    rw [hcurrent, hlink, setWidth_slot, h.numbered q hq, toInt_slot]
  refine ⟨⟨fun p hp => h.used p (View.giveBack_process hp), h.numbered, h.parents⟩, ?_,
    h.executing, h.first, h.base, ?_, ?_⟩
  · intro t ht
    by_cases hexec : t = v.executing
    · refine ⟨q, hq, ?_⟩
      rw [hexec]
      exact (Function.update_self ..).trans hparent
    · simpa [View.giveBack, hexec] using h.programs t ht
  · rintro (hzero | hother)
    · exact hsecond hzero
    · exact h.second (Or.inr hother)
  · exact h.reserved.mono (fun _ => View.giveBack_process) (fun _ ht => ht)

/-- A shell that is refused its successor had given up a slot that was free already, so its
terminal is as before. -/
theorem Housed.retire_activate (h : Housed v L) (hfull : ¬v.retire.activate.HasRoom) :
    v.retire.activate = v ∧ ∀ p : Fin 6, v.programPid v.executing = p → v.process p = false := by
  have hactive : Function.update (Function.update v.active v.executing false) v.executing true =
      v.active := by
    rw [Function.update_idem, ← h.executing, Function.update_eq_self]
  have hfree : ∀ p : Fin 6, v.programPid v.executing = p → v.process p = false := by
    intro p hprogram
    by_contra hused
    have hupdate : v.retire.process = Function.update v.process p false := by
      funext i
      simp only [View.retire, hprogram, natCast_inj_slot, Function.update_apply]
    have hcount := usedSlots_update v.process p false
    have hreserved : usedSlots v.process ≤ 3 + openTerminals v.active := h.reserved
    refine hfull ?_
    show usedSlots v.retire.process + 1 ≤ 3 + openTerminals
      (Function.update (Function.update v.active v.executing false) v.executing true)
    rw [hupdate, hactive]
    simp only [Bool.not_eq_false] at hused
    simp only [hused, Bool.toNat_false, Bool.toNat_true] at hcount
    omega
  have hprocess : v.retire.process = v.process := by
    obtain ⟨p, _, hprogram⟩ := h.programs _ h.executing
    funext i
    simp only [View.retire, hprogram]
    split
    · rename_i hi
      rw [natCast_inj_slot.mp hi, hfree p hprogram]
    · rfl
  refine ⟨?_, hfree⟩
  ext1
  · exact hprocess
  · exact hactive
  all_goals rfl

/-- **Every move keeps them**, if the openings launch their shells. -/
theorem Housed.moves {s s' : Scene} {e : Event} {c : Option Control} (h : Housed s.view L)
    (hshell : fs.Executable shell) (hmove : s.Moves fs e c s')
    (hopens : ∀ t junk entry frame, e = .switchTo t junk entry frame → t ≠ s.view.visible →
      s.view.active t = false → c.bind Control.launchedSlot ≠ none) :
    ∃ L', Housed s'.view L' := by
  cases hmove with
  | stays => exact ⟨L, h⟩
  | refused =>
    have hsame : s.view.activate = s.view := by
      have hactive : Function.update s.view.active s.view.executing true = s.view.active := by
        rw [← h.executing, Function.update_eq_self]
      simp only [View.activate, hactive]
    refine ⟨L, ?_⟩
    rw [show s.activate.view = s.view from hsame]
    exact h
  | launched hslot hroom => exact ⟨_, h.launch hslot hroom _⟩
  | ticked =>
    exact ⟨L, ⟨h.used, h.numbered, h.parents⟩, h.programs, nextActive_active h.executing _, h.first,
      h.base, h.second, h.reserved⟩
  | shown =>
    exact ⟨L, ⟨h.used, h.numbered, h.parents⟩, h.programs, h.executing, h.first, h.base, h.second,
      h.reserved⟩
  | opened hvis hinactive => exact absurd rfl (hopens _ _ _ _ rfl hvis hinactive)
  | openedShell hinactive hslot hroom => exact ⟨_, h.opened hinactive hslot hroom _⟩
  | renewed _ hslot hroom => exact ⟨_, h.renewed hslot hroom _⟩
  | notRenewed hbase hfull =>
    obtain ⟨hsame, hfree⟩ := h.retire_activate (hfull hshell)
    refine ⟨L, ?_⟩
    show Housed (s.view.retire.activate.giveBack s.view.current) L
    rw [hsame]
    refine h.giveBack rfl fun hzero => h.second (Or.inl ?_)
    simp only [View.giveBack] at hzero
    split at hzero
    · rename_i hprogram
      exact hfree 0 hprogram.symm
    · exact hzero
  | left hbase =>
    refine ⟨L, h.giveBack rfl fun hzero => h.second ?_⟩
    simp only [View.giveBack] at hzero
    split at hzero
    · -- the process in slot 0 is not the first terminal's bottom shell, so another has it
      rename_i hprogram
      refine Or.inr ⟨s.view.executing, fun hexec => ?_, h.executing⟩
      rw [hexec, h.base] at hbase
      rw [hexec] at hprogram
      exact hbase hprogram.symm
    · exact Or.inl hzero

/-! ## The address space -/

/-- `Coherent`, in the terms in which the kernel's functions set it. -/
def Scene.Coherent (s : Scene) : Prop :=
  ∃ p : Fin 6, s.view.programPid s.view.executing = p ∧ s.page = programPage (View.slotOf p) ∧
    s.stack = kernelStackTop (BitVec.ofNat 32 p) ∧
    s.view.pid (View.slotOf p) = BitVec.ofNat 32 p

theorem Scene.coherent_launch (s : Scene) (pid : Fin 6) (regs : Regs) :
    (s.launch pid regs).Coherent :=
  ⟨pid, Function.update_self .., rfl, rfl, Function.update_self ..⟩

/-- The parent is in force when `halt` has not faulted. -/
theorem Scene.coherent_leave {s : Scene} (h : Housed s.view L) (c : Control)
    (hfaulted : c.hasFaulted = false) : (s.leave s.view.current c.hasFaulted).Coherent := by
  obtain ⟨p, hp, hprogram⟩ := h.programs _ h.executing
  obtain ⟨q, hq, hlink⟩ := h.parents p hp
  have hcurrent : s.view.current = View.slotOf p := by
    rw [View.current, hprogram]
    rfl
  have hparent : s.parentPid s.view.current = BitVec.ofNat 32 q := by
    rw [Scene.parentPid, hcurrent, hlink, setWidth_slot, h.numbered q hq]
  refine ⟨q, ?_, ?_, ?_, h.numbered q hq⟩
  · have hnumber : (s.parentPid s.view.current).toInt = q := by rw [hparent, toInt_slot]
    exact (Function.update_self ..).trans hnumber
  · show programPage ((s.parentPid s.view.current).setWidth 8) = _
    rw [hparent, setWidth_slot]
  · simp only [Scene.leave, hfaulted, hparent, Bool.false_eq_true, if_false]

theorem Scene.coherent_tick {s : Scene} (h : Housed s.view L) (regs : Regs) :
    (s.tick regs).Coherent := by
  obtain ⟨p, hp, hprogram⟩ := h.programs _ (nextActive_active h.executing s.view.next)
  have hcurrent : (s.view.tick s.view.tickTarget regs).current = View.slotOf p := by
    show pcbIndex (s.view.programPid s.view.tickTarget) = View.slotOf p
    rw [show s.view.programPid s.view.tickTarget = p from hprogram]
    rfl
  refine ⟨p, hprogram, ?_, ?_, h.numbered p hp⟩
  · show programPage (s.view.tick s.view.tickTarget regs).current = _
    rw [hcurrent]
  · show kernelStackTop (s.view.pid (s.view.tick s.view.tickTarget regs).current) = _
    rw [hcurrent, h.numbered p hp]

/-- **The address space is coherent after every move**, unless `halt` has faulted. -/
theorem Scene.coherent_moves {s s' : Scene} {e : Event} {c : Option Control}
    (h : Housed s.view L) (hshell : fs.Executable shell) (hmove : s.Moves fs e c s')
    (hopens : ∀ t junk entry frame, e = .switchTo t junk entry frame → t ≠ s.view.visible →
      s.view.active t = false → c.bind Control.launchedSlot ≠ none)
    (hcoherent : e.isHalt = false → s'.view.executing = s.view.executing → s.Coherent)
    (hfaulted : ∀ r, e.isHalt = true → c = some r → r.hasFaulted = false) : s'.Coherent := by
  cases hmove with
  | stays he => exact hcoherent he rfl
  | refused =>
    obtain ⟨p, hp⟩ := hcoherent rfl rfl
    exact ⟨p, hp⟩
  | launched | openedShell | renewed => exact Scene.coherent_launch _ _ _
  | ticked => exact Scene.coherent_tick h _
  | shown =>
    obtain ⟨p, hp⟩ := hcoherent rfl rfl
    exact ⟨p, hp⟩
  | opened hvis hinactive => exact absurd rfl (hopens _ _ _ _ rfl hvis hinactive)
  | @notRenewed _ _ _ _ r hbase hfull =>
    obtain ⟨hsame, _⟩ := h.retire_activate (hfull hshell)
    have hscene : s.retire.activate = s := Scene.ext hsame rfl rfl
    rw [hscene]
    exact Scene.coherent_leave h r (hfaulted r rfl rfl)
  | @left _ _ _ _ r => exact Scene.coherent_leave h r (hfaulted r rfl rfl)

end Moves

/-- The page of process `p` is the `p`th 4MB page behind the kernel's. -/
theorem programPage_mapsProgram (p : Fin 6) :
    MapsProgram (programPage (View.slotOf p)) (8 * 2 ^ 20 + 4 * 2 ^ 20 * p) := by
  have hmaps : ∀ p : Fin 6, (programPage (View.slotOf p)).pta.toNat * 4096 =
      8 * 2 ^ 20 + 4 * 2 ^ 20 * p := by decide
  exact ⟨rfl, rfl, rfl, hmaps p⟩

theorem toNat_kernelStackTop (p : Fin 6) :
    (kernelStackTop (BitVec.ofNat 32 p)).toNat = 8 * 2 ^ 20 - 8 * 2 ^ 10 * p - 4 := by
  revert p
  decide

theorem coherent_of_scene {k : Kernel} (h : k.scene.Coherent) : Coherent k := by
  obtain ⟨p, hprogram, hpage, hstack, hpid⟩ := h
  refine ⟨p, hprogram, ?_, ?_, hpid⟩
  · rw [show k.pageDirectory programPde = programPage (View.slotOf p) from hpage]
    exact programPage_mapsProgram p
  · rw [show k.tss.esp0 = kernelStackTop (BitVec.ofNat 32 p) from hstack]
    exact toNat_kernelStackTop p

/-! ## Over whole runs -/

section Runs
variable {fs : FileSystem}

/-- The invariant of the runs. -/
def Sheltered (c : Kernel × HaltFaults) : Prop :=
  (∃ L, Housed c.1.view L) ∧ (c.2 c.1.currTerminalExecuting = false → c.1.scene.Coherent)

theorem sheltered_step (hshell : fs.Executable shell) (c : Kernel × HaltFaults) (e : Event)
    (h : Sheltered c) (hopens : OpensShell fs c.1 e) :
    Sheltered ((haltFaultMachine fs).step c e) := by
  obtain ⟨⟨L, hhoused⟩, hcoherent⟩ := h
  have hmove := scene_moves fs c.1 e
  have hopens' : ∀ t junk entry frame, e = .switchTo t junk entry frame →
      t ≠ c.1.scene.view.visible → c.1.scene.view.active t = false →
      (processControl fs c.1 e).bind Control.launchedSlot ≠ none := by
    rintro t junk entry frame rfl hvis hinactive
    exact hopens hvis hinactive
  refine ⟨Housed.moves (s := c.1.scene) hhoused hshell hmove hopens', fun hfault => ?_⟩
  refine Scene.coherent_moves (s := c.1.scene) hhoused hshell hmove hopens' ?_ ?_
  · -- the record of the executing terminal is as before
    intro he hexec
    refine hcoherent ?_
    have hrecord : recordHaltFault fs c.1 e c.2 = c.2 := by
      cases e with
      | halt => cases he
      | _ => rfl
    have hfault' :
        recordHaltFault fs c.1 e c.2 (kernelStep fs c.1 e).currTerminalExecuting = false :=
      hfault
    rw [hrecord] at hfault'
    rw [← hfault']
    exact congrArg c.2 hexec.symm
  · intro r he hcontrol
    cases e with
    | halt status junk junkFd regs =>
      have hexec : (kernelStep fs c.1 (.halt status junk junkFd regs)).currTerminalExecuting =
          c.1.currTerminalExecuting := executing_halt fs c.1 status junk junkFd regs
      have hfault' : Function.update c.2 c.1.currTerminalExecuting
          (halt fs c.1 status junk junkFd regs).2.hasFaulted
            (kernelStep fs c.1 (.halt status junk junkFd regs)).currTerminalExecuting = false :=
        hfault
      rw [hexec, Function.update_self] at hfault'
      rw [← Option.some.inj hcontrol]
      exact hfault'
    | _ => cases he

/-- The first shell is launched in slot 0, by a terminal that has reserved it. -/
theorem sheltered_booted (hshell : fs.Executable shell) (h : Hardware) (junk : Nat → Byte)
    (regs : Regs) : Sheltered (booted fs h junk regs, fun _ => false) := by
  obtain ⟨eip, image, hexec⟩ := execute_shell hshell (initialised h) junk regs rfl rfl
    (show (initialised h).firstFree = some 0 from rfl)
  have hscene : (booted fs h junk regs).scene = (initialised h).scene.launch 0 regs := by
    rw [booted, hexec]
    exact scene_launched 0 _ regs
  refine ⟨⟨fun p => p = 0, ?_⟩, fun _ => ?_⟩
  · show Housed (booted fs h junk regs).scene.view _
    rw [hscene]
    have hparent : ((initialised h).scene.launch 0 regs).view.parentId (View.slotOf 0) =
        BitVec.ofNat 32 (0 : Fin 6) := by
      simp only [Scene.launch, View.launch, Function.update_self]
      rfl
    have hactive : ((initialised h).scene.launch 0 regs).view.active =
        Function.update (fun t => decide (t = 0)) 0 true := rfl
    have hprogram : ((initialised h).scene.launch 0 regs).view.programPid =
        Function.update (fun t => if t = 0 then 0 else -1) 0 0 := rfl
    have hprocess : ((initialised h).scene.launch 0 regs).view.process =
        Function.update (fun _ => false) 0 true := rfl
    refine ⟨⟨?_, ?_, ?_⟩, ?_, by rw [hactive]; rfl, by rw [hactive]; rfl, rfl, ?_, ?_⟩
    · rw [hprocess]
      decide
    · rintro p rfl
      simp only [Scene.launch, View.launch, Function.update_self]
    · rintro p rfl
      exact ⟨0, rfl, hparent⟩
    · rw [hactive, hprogram]
      decide
    · rw [hactive, hprocess]
      decide
    · rw [← hscene]
      exact reserved_booted fs h junk regs
  · show (booted fs h junk regs).scene.Coherent
    rw [hscene]
    exact Scene.coherent_launch _ 0 regs

/-- **Coherent address spaces.**  In every run in which each opening launches its shell, the
process that runs has its own program page and kernel stack, and its control block holds its
number, in every state in which its process is not in the page fault handler. -/
theorem coherent_run (hshell : fs.Executable shell) (h : Hardware) (junk : Nat → Byte)
    (regs : Regs) (es : List Event)
    (hopens : (kernelMachine fs).Guarded (OpensShell fs) (booted fs h junk regs) es) :
    (haltFaultMachine fs).Always CoherentInUserCode (booted fs h junk regs, fun _ => false) es := by
  have hg : (haltFaultMachine fs).Guarded (fun c e => OpensShell fs c.1 e)
      (booted fs h junk regs, fun _ => false) es := Machine.withHistory_guarded.mpr hopens
  have hsheltered := Machine.always_of_step (sheltered_step hshell)
    (sheltered_booted hshell h junk regs) hg
  exact hsheltered.mono fun _ hc hfault => coherent_of_scene (hc.2 hfault)

end Runs

theorem coherent_twoTerminals :
    (haltFaultMachine shellImage).Always CoherentInUserCode
      (booted shellImage zeroHardware noJunk ⟨0x7FFF00, 0x7FFF40⟩, fun _ => false) twoTerminals :=
  coherent_run shellImage_executable zeroHardware noJunk ⟨0x7FFF00, 0x7FFF40⟩ twoTerminals
    (by decide +kernel)

end LinuxLikeOS
