import LinuxLikeOS.Scenes

/-! # A slot for every terminal

A terminal that is opened needs a slot for its shell.  `execute` refuses a process unless
more slots are free than terminals are inactive, and from that test comes an invariant of
all runs, with no condition on them: at least as many slots are free as terminals are
inactive (`SlotsReserved`).  It holds also where terminals do not own their slots, since
nothing but `execute` takes a slot, and every event that makes a terminal inactive makes
it active again.

So an opening finds a free slot and room for a process, and the number it computes for the
shell is the index of a slot.
-/
namespace LinuxLikeOS
open Transition

/-! ## The invariant -/

/-- The number of free entries of `process[]`. -/
def freeSlots (k : Kernel) : Nat := (Finset.univ.filter fun i => k.process i = false).card

/-- The number of terminals whose `active` is 0. -/
def inactiveTerminals (k : Kernel) : Nat :=
  (Finset.univ.filter fun t => (k.multiTerminal t).active = false).card

/-- There is a free slot for each inactive terminal. -/
def SlotsReserved (k : Kernel) : Prop := inactiveTerminals k ≤ freeSlots k

/-- One of the two tests with which `execute` refuses a process for want of a slot. -/
def LacksSlot (k : Kernel) : Prop :=
  k.activateExecuting.tooManyProcesses = true ∨ k.activateExecuting.getPid = none

/-- An opening calls `execute` where there is a slot, and the `base_pid` it has computed is
an index of `process[]`. -/
def OpensWithSlot (fs : FileSystem) (k : Kernel) : Event → Prop
  | .switchTo t junk _ frame => t ≠ k.currTerminalVisible → (k.multiTerminal t).active = false →
      ¬LacksSlot (k.showTerminal t).openVisible.followVisible ∧
      ∃ i : Fin 6, ((switchTerminal fs k t junk frame).1.multiTerminal t).basePid = i
  | _ => True

/-- The same as a bound on the slots in use. -/
def View.Reserved (v : View) : Prop := usedSlots v.process ≤ 3 + openTerminals v.active

section Counting

/-- The flags that are not set, and those that are. -/
theorem card_false_add_sum {n : Nat} (f : Fin n → Bool) :
    (Finset.univ.filter fun i => f i = false).card + ∑ i, (f i).toNat = n := by
  have hone : ∀ i, (if f i = false then 1 else 0) + (f i).toNat = 1 := by
    intro i
    cases f i <;> rfl
  rw [Finset.card_filter, ← Finset.sum_add_distrib, Finset.sum_congr rfl fun i _ => hone i]
  simp

theorem sum_toNat_mono {ι : Type} [Fintype ι] {f g : ι → Bool}
    (h : ∀ i, f i = true → g i = true) : ∑ i, (f i).toNat ≤ ∑ i, (g i).toNat := by
  refine Finset.sum_le_sum fun i _ => ?_
  cases hf : f i with
  | false => exact Nat.zero_le _
  | true => rw [h i hf]

theorem slotsReserved_iff {k : Kernel} : SlotsReserved k ↔ k.view.Reserved := by
  have hfree : freeSlots k + usedSlots k.process = 6 := card_false_add_sum k.process
  have hinactive : inactiveTerminals k + openTerminals k.view.active = 3 :=
    card_false_add_sum k.view.active
  have hused : usedSlots k.view.process = usedSlots k.process := rfl
  unfold SlotsReserved View.Reserved
  omega

end Counting

/-! ## Every move keeps it -/

section Moves
variable {fs : FileSystem} {v : View}

/-- Fewer processes and more active terminals keep the reservation. -/
theorem View.Reserved.mono {v' : View} (h : v.Reserved)
    (hprocess : ∀ i, v'.process i = true → v.process i = true)
    (hactive : ∀ t, v.active t = true → v'.active t = true) : v'.Reserved := by
  have hused : usedSlots v'.process ≤ usedSlots v.process := sum_toNat_mono hprocess
  have hopen : openTerminals v.active ≤ openTerminals v'.active := sum_toNat_mono hactive
  unfold View.Reserved at h ⊢
  omega

/-- A launch that `execute` has accepted keeps it. -/
theorem View.HasRoom.reserved (hroom : v.activate.HasRoom) {pid : Fin 6}
    (hslot : v.firstFree = some pid) (regs : Regs) : (v.launch pid regs).Reserved := by
  have hfree : v.process pid = false := by
    have := Fin.find?_eq_some_iff.mp hslot
    simpa using this.1
  have hused := usedSlots_update v.process pid true
  simp only [hfree, Bool.toNat_false, Bool.toNat_true] at hused
  have hroom' : usedSlots v.process + 1 ≤
      3 + openTerminals (Function.update v.active v.executing true) := hroom
  show usedSlots (Function.update v.process pid true) ≤
    3 + openTerminals (Function.update v.active v.executing true)
  omega

theorem View.retire_process {i : Fin 6} (h : v.retire.process i = true) : v.process i = true := by
  simp only [View.retire] at h
  split at h
  · cases h
  · exact h

theorem View.giveBack_process {slot : Byte} {i : Fin 6}
    (h : (v.giveBack slot).process i = true) : v.process i = true := by
  simp only [View.giveBack] at h
  split at h
  · cases h
  · exact h

theorem View.activate_active {t : Fin 3} (h : v.active t = true) : v.activate.active t = true := by
  by_cases ht : t = v.executing
  · subst ht
    exact Function.update_self ..
  · simpa [View.activate, ht] using h

/-- `halt` makes a terminal inactive, and the `execute` it calls makes it active again. -/
theorem View.retire_activate_active {t : Fin 3} (h : v.active t = true) :
    v.retire.activate.active t = true := by
  by_cases ht : t = v.executing
  · subst ht
    exact Function.update_self ..
  · simpa [View.activate, View.retire, ht] using h

/-- **The reservation is kept by every move.** -/
theorem View.Reserved.moves {s s' : Scene} {e : Event} {c : Option Control}
    (h : s.view.Reserved) (hmove : s.Moves fs e c s') : s'.view.Reserved := by
  cases hmove with
  | stays | ticked | shown => exact h
  | refused => exact h.mono (fun _ hi => hi) (fun _ => View.activate_active)
  | launched hslot hroom => exact hroom.reserved hslot _
  | @opened t _ _ _ _ _ hinactive =>
    refine h.mono (fun _ hi => hi) fun u hu => ?_
    by_cases hut : u = t
    · subst hut
      exact Function.update_self ..
    · simpa [Scene.open_, View.open_, hut] using hu
  | @openedShell t _ _ _ _ _ _ _ hslot hroom =>
    have hactivate : (s.open_ t).view.activate = (s.open_ t).view := by
      simp only [View.activate, Scene.open_, View.open_, Function.update_idem]
    rw [← hactivate] at hroom
    exact hroom.reserved hslot _
  | renewed _ hslot hroom => exact hroom.reserved hslot _
  | notRenewed =>
    refine h.mono (fun i hi => ?_) (fun _ => View.retire_activate_active)
    have hretired : s.view.retire.activate.process i = true := View.giveBack_process hi
    exact View.retire_process hretired
  | left => exact h.mono (fun _ => View.giveBack_process) (fun _ ht => ht)

end Moves

/-! ## Openings -/

section Openings
variable {fs : FileSystem} {k : Kernel} {v : View}

/-- While a terminal is inactive there is a free slot, and one to spare for it. -/
theorem View.Reserved.firstFree (h : v.Reserved) {t : Fin 3} (hinactive : v.active t = false) :
    ∃ pid, v.firstFree = some pid ∧
      usedSlots v.process + 1 ≤ 3 + openTerminals (Function.update v.active t true) := by
  have hopen := sum_toNat_update v.active t true
  have hthree := openTerminals_le (Function.update v.active t true)
  have hreserved : usedSlots v.process ≤ 3 + openTerminals v.active := h
  simp only [hinactive, Bool.toNat_false, Bool.toNat_true] at hopen
  unfold openTerminals at hreserved hthree ⊢
  cases hfree : v.firstFree with
  | some pid => exact ⟨pid, rfl, by omega⟩
  | none =>
    have hall : ∀ i, v.process i = true := by simpa [View.firstFree] using hfree
    have hsix := usedSlots_eq_six.mpr hall
    omega

/-- `get_current_pid` is one below the first free slot, or 0 if slot 0 is free. -/
theorem View.Reserved.guess_inTable (h : v.Reserved) {t : Fin 3} (hinactive : v.active t = false) :
    ∃ i : Fin 6, v.guess + 1 = i := by
  obtain ⟨pid, hfree, _⟩ := h.firstFree hinactive
  by_cases hzero : pid = 0
  · exact ⟨1, by simp [View.guess, hfree, hzero]⟩
  · refine ⟨pid, ?_⟩
    simp only [View.guess, hfree, hzero, if_false]
    omega

/-- An opening finds a slot, and has computed an index of the table. -/
theorem opensWithSlot_of_reserved (h : k.view.Reserved) (e : Event) : OpensWithSlot fs k e := by
  cases e with
  | switchTo t junk entry frame =>
    intro hvis hinactive
    obtain ⟨pid, hfree, hroom⟩ := h.firstFree hinactive
    set opening := (k.showTerminal t).openVisible.followVisible with hopening
    have hview : opening.view = k.view.open_ t (k.getCurrentPid + 1) := view_openVisible t
    refine ⟨?_, ?_⟩
    · rintro (htoo | hnone)
      · -- the terminal to be opened is not counted as inactive any more
        have haccepted : opening.activateExecuting.tooManyProcesses = false := by
          refine tooManyProcesses_eq_false ?_
          rw [view_activateExecuting, hview]
          simp only [View.open_, Function.update_idem]
          exact hroom
        rw [haccepted] at htoo
        cases htoo
      · have hsome : opening.activateExecuting.firstFree = some pid := hfree
        simp only [Kernel.getPid, hsome, Option.map_some, reduceCtorEq] at hnone
    · obtain ⟨i, hi⟩ := h.guess_inTable hinactive
      refine ⟨i, ?_⟩
      have hbase : (switchTerminal fs k t junk frame).1.view.basePid t =
          opening.view.basePid t := by
        rcases switchTerminal_cases fs k t junk frame with ⟨heq, _⟩ | ⟨_, hact, _⟩ | ⟨_, _, heq⟩
        · exact absurd heq hvis
        · rw [hinactive] at hact
          cases hact
        · rw [heq]
          exact congrFun (basePid_execute fs opening (some shell) junk frame) t
      refine hbase.trans ?_
      rw [hview]
      exact (Function.update_self ..).trans hi
  | _ => trivial

end Openings

/-! ## Over whole runs -/

theorem reserved_initialised (h : Hardware) : (initialised h).scene.view.Reserved := by
  have hnone : usedSlots (fun _ : Fin 6 => false) = 0 := by decide
  have hused : usedSlots (initialised h).scene.view.process = 0 := hnone
  unfold View.Reserved
  omega

theorem reserved_booted (fs : FileSystem) (h : Hardware) (junk : Nat → Byte) (regs : Regs) :
    (booted fs h junk regs).view.Reserved := by
  have hreserved := View.Reserved.moves (s := (initialised h).scene) (reserved_initialised h)
    (moves_execute fs (initialised h) (some shell) junk regs)
  exact hreserved

/-- **Slot reservation.**  In every run, in every state, at least as many slots are free as
terminals are inactive; so no opening lacks a slot for its shell, and the number it has
computed for the shell is the index of a slot. -/
theorem slotsReserved_run (fs : FileSystem) (h : Hardware) (junk : Nat → Byte) (regs : Regs)
    (es : List Event) :
    (kernelMachine fs).Always SlotsReserved (booted fs h junk regs) es ∧
      (kernelMachine fs).Guarded (OpensWithSlot fs) (booted fs h junk regs) es := by
  have hstep : ∀ k e, k.view.Reserved → True → (kernelStep fs k e).view.Reserved :=
    fun k e hk _ => View.Reserved.moves (s := k.scene) hk (scene_moves fs k e)
  have hboot := reserved_booted fs h junk regs
  have htrue := Machine.guarded_true (M := kernelMachine fs) (booted fs h junk regs) es
  constructor
  · exact (Machine.always_of_step (I := fun k => k.view.Reserved) hstep hboot htrue).mono
      fun _ hk => slotsReserved_iff.mpr hk
  · exact Machine.guarded_of_step (I := fun k => k.view.Reserved) hstep
      (fun _ e hk _ => opensWithSlot_of_reserved hk e) hboot htrue

/-! ## Indices of the process table

The model drops a write to `process[]` outside its bounds.  With control blocks that are zero
at boot there is none: `program_pid` of a terminal that runs is always the index of a slot. -/

/-- The numbers in the control blocks and those of the active terminals are indices of
`process[]`. -/
structure View.InTable (v : View) : Prop where
  numbers : ∀ b, ∃ p : Fin 6, v.pid b = BitVec.ofNat 32 p
  programs : ∀ t, v.active t = true → ∃ p : Fin 6, v.programPid t = p
  executing : v.active v.executing = true

section InTable
variable {fs : FileSystem} {v : View}

theorem View.InTable.activate (h : v.InTable) : v.activate = v := by
  have hactive : Function.update v.active v.executing true = v.active := by
    rw [← h.executing, Function.update_eq_self]
  simp only [View.activate, hactive]

theorem View.InTable.launch (hnumbers : ∀ b, ∃ p : Fin 6, v.pid b = BitVec.ofNat 32 p)
    (hprograms : ∀ t, t ≠ v.executing → v.active t = true → ∃ p : Fin 6, v.programPid t = p)
    (pid : Fin 6) (regs : Regs) : (v.launch pid regs).InTable where
  numbers := by
    intro b
    by_cases hb : b = View.slotOf pid
    · exact ⟨pid, by simp [View.launch, hb]⟩
    · simpa [View.launch, hb] using hnumbers b
  programs := by
    intro t ht
    by_cases hexec : t = v.executing
    · exact ⟨pid, by simp [View.launch, hexec]⟩
    · simp only [View.launch, Function.update_of_ne hexec] at ht ⊢
      exact hprograms t hexec ht
  executing := Function.update_self ..

theorem View.InTable.giveBack (h : v.InTable) (slot : Byte) : (v.giveBack slot).InTable where
  numbers := h.numbers
  programs := by
    intro t ht
    by_cases hexec : t = v.executing
    · obtain ⟨p, hp⟩ := h.numbers ((v.parentId slot).setWidth 8)
      exact ⟨p, by simp [View.giveBack, hexec, hp, toInt_slot]⟩
    · simpa [View.giveBack, hexec] using h.programs t ht
  executing := h.executing

theorem View.InTable.opened (h : v.InTable) (hreserved : v.Reserved) {t : Fin 3}
    (hinactive : v.active t = false) : (v.open_ t (v.guess + 1)).InTable where
  numbers := h.numbers
  programs := by
    intro u hu
    by_cases hut : u = t
    · obtain ⟨i, hi⟩ := hreserved.guess_inTable hinactive
      exact ⟨i, by simp [View.open_, hut, hi]⟩
    · simp only [View.open_, Function.update_of_ne hut] at hu ⊢
      exact h.programs u hu
  executing := Function.update_self ..

theorem View.InTable.moves {s s' : Scene} {e : Event} {c : Option Control} (h : s.view.InTable)
    (hreserved : s.view.Reserved) (hmove : s.Moves fs e c s') : s'.view.InTable := by
  have hretired : s.view.retire.activate.InTable := by
    refine ⟨h.numbers, fun t ht => ?_, Function.update_self ..⟩
    by_cases hexec : t = s.view.executing
    · rw [hexec]
      exact h.programs _ h.executing
    · refine h.programs t ?_
      simpa [View.activate, View.retire, hexec] using ht
  cases hmove with
  | stays => exact h
  | refused =>
    rw [show s.activate.view = s.view from h.activate]
    exact h
  | launched => exact .launch h.numbers (fun t _ => h.programs t) _ _
  | ticked => exact ⟨h.numbers, h.programs, nextActive_active h.executing _⟩
  | shown => exact ⟨h.numbers, h.programs, h.executing⟩
  | opened _ hinactive => exact h.opened hreserved hinactive
  | openedShell hinactive =>
    have hopened := h.opened hreserved hinactive
    exact .launch hopened.numbers (fun t _ => hopened.programs t) _ _
  | renewed =>
    refine View.InTable.launch (v := s.view.retire) h.numbers
      (fun t ht hact => h.programs t ?_) _ _
    have hne : t ≠ s.view.executing := ht
    simpa [Scene.retire, View.retire, hne] using hact
  | notRenewed => exact hretired.giveBack _
  | left => exact h.giveBack _

end InTable

/-- The `program_pid` of every active terminal is an index of `process[]`. -/
def ProgramsInTable (k : Kernel) : Prop :=
  ∀ t, (k.multiTerminal t).active = true → ∃ p : Fin 6, (k.multiTerminal t).programPid = p

theorem inTable_initialised {h : Hardware} (hzero : ∀ b, (h.pcb b).pid = 0) :
    (initialised h).view.InTable := by
  refine ⟨fun b => ⟨0, hzero b⟩, fun t ht => ⟨0, ?_⟩, rfl⟩
  have hactive : decide (t = 0) = true := ht
  have hprogram : (initialised h).view.programPid t = if t = 0 then 0 else -1 := rfl
  rw [hprogram, of_decide_eq_true hactive]
  rfl

/-- With control blocks that are zero at boot, no event writes `process[]` out of bounds. -/
theorem programsInTable_run (fs : FileSystem) (h : Hardware) (hzero : ∀ b, (h.pcb b).pid = 0)
    (junk : Nat → Byte) (regs : Regs) (es : List Event) :
    (kernelMachine fs).Always ProgramsInTable (booted fs h junk regs) es := by
  have hinit : (initialised h).scene.view.InTable := inTable_initialised hzero
  have hreserved : (initialised h).scene.view.Reserved := reserved_initialised h
  have hmove := moves_execute fs (initialised h) (some shell) junk regs
  have hboot : (booted fs h junk regs).scene.view.InTable ∧
      (booted fs h junk regs).scene.view.Reserved :=
    ⟨hinit.moves hreserved hmove, hreserved.moves hmove⟩
  exact (Machine.always_of_step (M := kernelMachine fs)
    (I := fun k => k.scene.view.InTable ∧ k.scene.view.Reserved)
    (fun k e hk _ => ⟨hk.1.moves hk.2 (scene_moves fs k e), hk.2.moves (scene_moves fs k e)⟩)
    hboot (Machine.guarded_true _ es)).mono fun _ hk => hk.1.programs

end LinuxLikeOS
