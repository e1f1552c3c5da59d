import LinuxLikeOS.SlotReservation

/-! # One terminal is one stack

`get_current_pid` guesses the running process: it is the one before the first hole in
`process[]`.  While the first terminal is the only one, the guess is right.  The slots in
use are `0` to `n` for some `n`, the process that runs is in slot `n`, and its parent is in
the slot before; so `execute` takes slot `n + 1`, `halt` gives back slot `n`, and a bottom
shell that halts is renewed in slot 0 (`SingleStack`).  The test for free slots keeps two
of them for the other terminals, so `n` is at most 3.

Nothing is asked of the run but that it never switches terminals: ticks, keys, calls and
exceptions may come in any order.
-/
namespace LinuxLikeOS
open Transition

/-! ## The discipline -/

/-- The event is a switch of terminals. -/
def Event.isSwitch : Event → Bool
  | .switchTo .. => true
  | _ => false

/-- The slots in use are `0` to `n`, the process in slot `n` runs, and the parents are the
slots before; the control block that the file drivers pick is the running process's. -/
structure StackOfDepth (k : Kernel) (n : Nat) : Prop where
  depth : n ≤ 3
  allocated : ∀ i : Fin 6, k.process i = true ↔ i ≤ n
  program : (k.multiTerminal 0).programPid = n
  guessed : k.getCurrentPid = n
  parents : ∀ j : Fin 6, 1 ≤ (j : Nat) → j ≤ n → (k.getPcb j).parentId = BitVec.ofNat 32 (j - 1)
  picked : k.guessedSlot = k.executingSlot

/-- The first terminal is the only one, and its processes are a stack from slot 0 on. -/
structure SingleStack (v : View) (n : Nat) : Prop where
  depth : n ≤ 3
  allocated : ∀ i : Fin 6, v.process i = true ↔ i ≤ n
  active : ∀ t, v.active t = true ↔ t = 0
  executing : v.executing = 0
  base : v.basePid 0 = 0
  program : v.programPid 0 = n
  numbered : ∀ p : Fin 6, p ≤ n → v.pid (View.slotOf p) = BitVec.ofNat 32 p
  parents : ∀ p : Fin 6, 1 ≤ (p : Nat) → p ≤ n →
    v.parentId (View.slotOf p) = BitVec.ofNat 32 (p - 1)

namespace SingleStack
variable {v : View} {n : Nat}

/-- The first hole is above the stack. -/
theorem firstFree_eq (h : SingleStack v n) {pid : Fin 6} (hslot : v.firstFree = some pid) :
    (pid : Nat) = n + 1 := by
  obtain ⟨hfree, hlow⟩ := View.firstFree_eq_some.mp hslot
  have habove : ¬(pid : Nat) ≤ n := by
    rw [← h.allocated pid, hfree]
    exact Bool.false_ne_true
  have hdepth := h.depth
  by_contra hne
  -- slot `n + 1` would be a hole before `pid`
  have hused := hlow ⟨n + 1, by omega⟩ (by rw [Fin.lt_def]; show n + 1 < pid; omega)
  have := (h.allocated _).mp hused
  exact Nat.not_succ_le_self n this

theorem firstFree (h : SingleStack v n) :
    v.firstFree = some ⟨n + 1, Nat.lt_of_le_of_lt (Nat.succ_le_succ h.depth) (by decide)⟩ := by
  have hdepth := h.depth
  cases hfree : v.firstFree with
  | some pid => rw [Option.some.injEq, Fin.ext_iff]; exact h.firstFree_eq hfree
  | none =>
    have hall : ∀ i, v.process i = true := by simpa [View.firstFree] using hfree
    have : (4 : Nat) + 1 ≤ n := (h.allocated 5).mp (hall 5)
    omega

/-- `get_current_pid` is the process that runs. -/
theorem guess (h : SingleStack v n) : v.guess = n := by
  have hne : (⟨n + 1, Nat.lt_of_le_of_lt (Nat.succ_le_succ h.depth) (by decide)⟩ : Fin 6) ≠ 0 := by
    rw [Ne, Fin.ext_iff]
    exact Nat.succ_ne_zero n
  simp only [View.guess, h.firstFree, hne, if_false]
  omega

theorem usedSlots_eq (h : SingleStack v n) : usedSlots v.process = n + 1 := by
  have hcount : ∀ m : Fin 4, usedSlots (fun i : Fin 6 => decide ((i : Nat) ≤ m)) = m + 1 := by
    decide
  have hprocess : v.process = fun i : Fin 6 => decide ((i : Nat) ≤ n) := by
    funext i
    rw [Bool.eq_iff_iff, h.allocated, decide_eq_true_iff]
  rw [hprocess]
  exact hcount ⟨n, Nat.lt_succ_of_le h.depth⟩

theorem active_eq (h : SingleStack v n) : v.active = fun t => decide (t = 0) := by
  funext t
  rw [Bool.eq_iff_iff, h.active, decide_eq_true_iff]

theorem openTerminals_eq (h : SingleStack v n) : openTerminals v.active = 1 := by
  rw [h.active_eq]
  decide

/-- The executing terminal is active already. -/
theorem activate_active (h : SingleStack v n) :
    Function.update v.active v.executing true = v.active := by
  have hactive : v.active v.executing = true := (h.active _).mpr h.executing
  rw [← hactive, Function.update_eq_self]

/-! ## Every move keeps it -/

/-- A process is pushed. -/
theorem launch (h : SingleStack v n) {pid : Fin 6} (hslot : v.firstFree = some pid)
    (hroom : v.activate.HasRoom) (regs : Regs) : SingleStack (v.launch pid regs) (n + 1) := by
  have hpid := h.firstFree_eq hslot
  have hroom' : usedSlots v.process + 1 ≤
      3 + openTerminals (Function.update v.active v.executing true) := hroom
  rw [h.activate_active, h.usedSlots_eq, h.openTerminals_eq] at hroom'
  refine ⟨by omega, ?_, ?_, h.executing, h.base, ?_, ?_, ?_⟩
  · intro i
    by_cases hi : i = pid
    · subst hi
      simp [View.launch, hpid]
    · have hval : (i : Nat) ≠ pid := fun heq => hi (Fin.ext heq)
      simp only [View.launch, Function.update_of_ne hi, h.allocated i]
      omega
  · show ∀ t, Function.update v.active v.executing true t = true ↔ t = 0
    rw [h.activate_active]
    exact h.active
  · show Function.update v.programPid v.executing (pid : Int) 0 = _
    rw [h.executing, Function.update_self, hpid]
  · intro p hp
    by_cases hppid : p = pid
    · simp [View.launch, hppid]
    · have hne : View.slotOf p ≠ View.slotOf pid := fun heq => hppid (slotOf_inj.mp heq)
      have hval : (p : Nat) ≠ pid := fun heq => hppid (Fin.ext heq)
      simp only [View.launch, Function.update_of_ne hne]
      exact h.numbered p (by omega)
  · intro p hone hp
    by_cases hppid : p = pid
    · -- its parent is the process that ran
      have hparent : (v.launch pid regs).parentId (View.slotOf pid) =
          BitVec.ofInt 32 (v.programPid v.executing) := Function.update_self ..
      rw [hppid, hparent, h.executing, h.program, hpid, Nat.add_sub_cancel]
      exact BitVec.ofInt_natCast ..
    · have hne : View.slotOf p ≠ View.slotOf pid := fun heq => hppid (slotOf_inj.mp heq)
      have hval : (p : Nat) ≠ pid := fun heq => hppid (Fin.ext heq)
      simp only [View.launch, Function.update_of_ne hne]
      exact h.parents p hone (by omega)

/-- The slot of the process that runs. -/
theorem current (h : SingleStack v n) :
    v.current = View.slotOf ⟨n, Nat.lt_of_le_of_lt h.depth (by decide)⟩ := by
  rw [View.current, h.executing, h.program]
  rfl

/-- A process is popped. -/
theorem giveBack (h : SingleStack v (n + 1)) : SingleStack (v.giveBack v.current) n := by
  have hdepth := h.depth
  have hparent : v.pid ((v.parentId v.current).setWidth 8) = BitVec.ofNat 32 n := by
    have hlink := h.parents ⟨n + 1, by omega⟩ (Nat.succ_le_succ (Nat.zero_le n)) (Nat.le_refl _)
    have hnumber := h.numbered ⟨n, by omega⟩ (Nat.le_succ n)
    have hslot := setWidth_slot ⟨n, by omega⟩
    rw [h.current, hlink]
    exact (congrArg v.pid hslot).trans hnumber
  refine ⟨by omega, ?_, h.active, h.executing, h.base, ?_, ?_, ?_⟩
  · intro i
    simp only [View.giveBack, h.executing, h.program]
    split
    · rename_i hi
      simp only [Bool.false_eq_true, false_iff]
      omega
    · rename_i hi
      rw [h.allocated i]
      omega
  · have hself : (v.giveBack v.current).programPid 0 =
        (v.pid ((v.parentId v.current).setWidth 8)).toInt := by
      simp only [View.giveBack, h.executing, Function.update_self]
    rw [hself, hparent]
    exact toInt_slot ⟨n, by omega⟩
  · exact fun p hp => h.numbered p (Nat.le_succ_of_le hp)
  · exact fun p hone hp => h.parents p hone (Nat.le_succ_of_le hp)

/-- A halting bottom shell leaves the table empty. -/
theorem retire_process (h : SingleStack v 0) (i : Fin 6) : v.retire.process i = false := by
  simp only [View.retire, h.executing, h.program]
  split
  · rfl
  · rename_i hi
    rw [← Bool.not_eq_true, h.allocated i]
    omega

/-- The bottom shell is renewed in slot 0. -/
theorem renewed (h : SingleStack v 0) {pid : Fin 6} (hslot : v.retire.firstFree = some pid)
    (regs : Regs) : SingleStack (v.retire.launch pid regs) 0 := by
  have hpid : pid = 0 := by
    obtain ⟨_, hlow⟩ := View.firstFree_eq_some.mp hslot
    by_contra hne
    have hused := hlow 0 (Fin.pos_iff_ne_zero.mpr hne)
    rw [h.retire_process] at hused
    cases hused
  subst hpid
  have hactive : (v.retire.launch 0 regs).active = v.active := by
    show Function.update (Function.update v.active v.executing false) v.executing true = v.active
    rw [Function.update_idem, h.activate_active]
  refine ⟨Nat.zero_le 3, ?_, ?_, h.executing, h.base, ?_, ?_, ?_⟩
  · intro i
    by_cases hi : i = 0
    · simp [View.launch, hi]
    · have hval : (i : Nat) ≠ 0 := fun heq => hi (Fin.ext heq)
      simp only [View.launch, Function.update_of_ne hi, h.retire_process]
      simp only [Bool.false_eq_true, false_iff]
      omega
  · rw [hactive]
    exact h.active
  · show Function.update v.programPid v.executing ((0 : Fin 6) : Int) 0 = _
    rw [h.executing, Function.update_self]
    rfl
  · intro p hp
    obtain rfl : p = 0 := Fin.ext (Nat.le_zero.mp hp)
    simp only [View.launch, Function.update_self]
  · intro p hone hp
    omega

/-- **Every move but a switch keeps the stack.** -/
theorem moves {fs : FileSystem} {s s' : Scene} {e : Event} {c : Option Control}
    (h : SingleStack s.view n) (hshell : fs.Executable shell) (hmove : s.Moves fs e c s')
    (hswitch : e.isSwitch = false) : ∃ m, SingleStack s'.view m := by
  cases hmove with
  | stays => exact ⟨n, h⟩
  | refused =>
    have hsame : s.view.activate = s.view := by simp only [View.activate, h.activate_active]
    refine ⟨n, ?_⟩
    rw [show s.activate.view = s.view from hsame]
    exact h
  | launched hslot hroom => exact ⟨n + 1, h.launch hslot hroom _⟩
  | ticked =>
    have htarget : s.view.tickTarget = 0 := by
      have hexec : s.view.active s.view.executing = true := (h.active _).mpr h.executing
      exact (h.active _).mp (nextActive_active hexec s.view.next)
    exact ⟨n, h.depth, h.allocated, h.active, htarget, h.base, h.program, h.numbered, h.parents⟩
  | shown | opened | openedShell => cases hswitch
  | renewed hbase hslot =>
    rw [h.executing, h.program, h.base] at hbase
    obtain rfl : n = 0 := by omega
    exact ⟨0, h.renewed hslot _⟩
  | notRenewed hbase hfull =>
    -- the whole table is free, so there is room for the shell
    rw [h.executing, h.program, h.base] at hbase
    obtain rfl : n = 0 := by omega
    refine absurd ?_ (hfull hshell)
    have hnone : s.view.retire.activate.process = fun _ => false := funext h.retire_process
    show usedSlots s.view.retire.activate.process + 1 ≤ _
    rw [hnone, show usedSlots (fun _ => false) = 0 by decide]
    omega
  | left hbase =>
    cases n with
    | zero => exact absurd (by rw [h.executing, h.program, h.base]; rfl) hbase
    | succ n => exact ⟨n, h.giveBack⟩

end SingleStack

/-! ## Over whole runs -/

theorem singleStack_booted {fs : FileSystem} (hshell : fs.Executable shell) (h : Hardware)
    (junk : Nat → Byte) (regs : Regs) : SingleStack (booted fs h junk regs).view 0 := by
  obtain ⟨eip, image, hexec⟩ := execute_shell hshell (initialised h) junk regs rfl rfl
    (show (initialised h).firstFree = some 0 from rfl)
  have hview : (booted fs h junk regs).view = (initialised h).view.launch 0 regs := by
    rw [booted, hexec]
    exact view_launched 0 _ regs
  rw [hview]
  have hactive : ((initialised h).view.launch 0 regs).active =
      Function.update (fun t => decide (t = 0)) 0 true := rfl
  have hprocess : ((initialised h).view.launch 0 regs).process =
      Function.update (fun _ => false) 0 true := rfl
  refine ⟨Nat.zero_le 3, ?_, ?_, rfl, rfl, rfl, ?_, ?_⟩
  · rw [hprocess]
    decide
  · rw [hactive]
    decide
  · intro p hp
    obtain rfl : p = 0 := Fin.ext (Nat.le_zero.mp hp)
    simp only [View.launch, Function.update_self]
  · intro p hone hp
    omega

/-- The invariant is the discipline. -/
theorem SingleStack.stackOfDepth {k : Kernel} {n : Nat} (h : SingleStack k.view n) :
    StackOfDepth k n := by
  have hguess : k.getCurrentPid = n := h.guess
  refine ⟨h.depth, h.allocated, h.program, hguess, h.parents, ?_⟩
  have hexec : k.executingSlot = pcbIndex n := by
    rw [Kernel.executingSlot, Kernel.executing, show k.currTerminalExecuting = 0 from h.executing]
    exact congrArg pcbIndex h.program
  rw [hexec, Kernel.guessedSlot, hguess]

end LinuxLikeOS
