import LinuxLikeOS.ProcessStacks

/-! # The kernel keeps stacks of processes

Every event of the kernel does to the process table what an operation on stacks
does, as long as two things do not happen (`step_effect`):

* `switch_terminal` opens a terminal while the kernel is jammed, so that the
  `execute` it calls returns at once and no shell is there (`OpensUnjammed`);
* `halt` compares the process that halts with a `base_pid` that is not the bottom
  of its stack, and takes the wrong branch (`TakesItsBranch`).

`base_pid` is written when a terminal is opened and never again, while a bottom
shell that halts is renewed in the first free slot.  It stays the bottom of its
stack exactly as long as that is the slot the shell had (`RenewsInPlace`).
-/
namespace LinuxLikeOS
open StackFamily

/-! ## Room for a process -/

section Room
variable {k : Kernel}

theorem openTerminals_le (active : Fin 3 → Bool) : openTerminals active ≤ 3 := by
  have hle : openTerminals active ≤ ∑ _t : Fin 3, 1 :=
    Finset.sum_le_sum fun t _ => Bool.toNat_le (active t)
  simpa using hle

theorem tooManyProcesses_eq_false
    (h : usedSlots k.process + 1 ≤ 3 + openTerminals k.view.active) :
    k.tooManyProcesses = false := by
  have hopen : k.terminalNum = openTerminals k.view.active := rfl
  simp only [Kernel.tooManyProcesses, hopen, Bool.and_eq_false_iff, decide_eq_false_iff_not]
  right
  omega

theorem exists_firstFree (h : usedSlots k.process < 6) : ∃ pid, k.firstFree = some pid := by
  cases hfree : k.firstFree with
  | some pid => exact ⟨pid, rfl⟩
  | none => rw [usedSlots_eq_six.mpr (firstFree_eq_none.mp hfree)] at h; omega

/-- A process that `execute` accepts leaves the reserved slots alone. -/
theorem room_of_accepted {pid : Fin 6} (hroom : k.tooManyProcesses = false)
    (hfree : k.firstFree = some pid) :
    usedSlots k.process + 1 ≤ 3 + openTerminals k.view.active := by
  have hopen : k.terminalNum = openTerminals k.view.active := rfl
  have hle := usedSlots_le k.process
  have hlt : usedSlots k.process ≠ 6 := by
    intro hsix
    have := usedSlots_eq_six.mp hsix pid
    rw [(firstFree_eq_some.mp hfree).1] at this
    cases this
  have hthree := openTerminals_le k.view.active
  simp only [Kernel.tooManyProcesses, hopen, Bool.and_eq_false_iff, decide_eq_false_iff_not]
    at hroom
  omega

end Room

/-! ## One event -/

section Steps
variable {fs : FileSystem} {k : Kernel} {S : Processes}

theorem represents_pitHandler (h : Represents k.view S) (regs : Regs) :
    k.view.active k.tickTarget = true ∧
      Represents (pitHandler k regs).1.view S := by
  have hactive : k.view.active k.tickTarget = true := nextActive_active h.executing _
  rw [view_pitHandler]
  exact ⟨hactive, h.tick hactive regs⟩

/-- Opening a terminal launches its shell in the first free slot. -/
theorem switchTerminal_opens (hshell : fs.Executable shell) (h : Represents k.view S) {t : Fin 3}
    (hvis : t ≠ k.currTerminalVisible) (hinactive : (k.multiTerminal t).active = false)
    (hjam : k.jammed = false) (junk : Nat → Byte) (regs : Regs) :
    ∃ pid eip image, k.firstFree = some pid ∧
      (switchTerminal fs k t junk regs).2 = .launched pid eip image ∧
      (switchTerminal fs k t junk regs).1.view = (k.view.open_ t pid).launch pid regs := by
  have hopen := sum_toNat_update k.view.active t true
  have hthree := openTerminals_le (Function.update k.view.active t true)
  have hroom := h.room
  have hin : k.view.active t = false := hinactive
  unfold openTerminals at hroom hthree
  simp [hin] at hopen
  have hused : usedSlots k.process = usedSlots k.view.process := rfl
  -- `room` leaves a slot for the terminal, which is not counted as active yet
  obtain ⟨pid, hfree⟩ := exists_firstFree (k := k) (by omega)
  obtain ⟨eip, image, hexec⟩ := execute_shell hshell
    (k.showTerminal t).openVisible.followVisible junk regs hjam
    (tooManyProcesses_eq_false (by
      rw [view_activateExecuting, view_openVisible]
      simp only [View.open_, Function.update_idem, openTerminals]
      have hsame :
          usedSlots (k.showTerminal t).openVisible.followVisible.activateExecuting.process =
            usedSlots k.view.process := rfl
      omega)) hfree
  rcases switchTerminal_cases fs k t junk regs with ⟨heq, _⟩ | ⟨_, hact, _⟩ | ⟨_, _, hswitch⟩
  · exact absurd heq hvis
  · rw [hinactive] at hact
    cases hact
  · rw [hswitch, hexec]
    refine ⟨pid, eip, image, hfree, rfl, ?_⟩
    rw [view_launched, view_openVisible, getCurrentPid_add_one h.slot_zero hfree]

/-- `execute` leaves the processes alone or launches in the first free slot. -/
theorem view_execute (fs : FileSystem) (h : Represents k.view S) (command : Option CString)
    (junk : Nat → Byte) (regs : Regs) :
    (execute fs k command junk regs).1.view = k.view ∨
    ∃ pid, k.firstFree = some pid ∧
      usedSlots k.process + 1 ≤ 3 + openTerminals k.view.active ∧
      (execute fs k command junk regs).1.view = k.view.launch pid regs := by
  have hactivate : k.activateExecuting.view = k.view := by
    rw [view_activateExecuting, h.active_executing]
  rcases execute_cases fs k command junk regs with
    ⟨_, heq⟩ | ⟨_, k', hoff | hoff, heq⟩ | ⟨_, pid, arg, eip, image, hroom, hfree, heq⟩
  · exact Or.inl (by rw [heq])
  · exact Or.inl (by rw [heq]; exact view_of_offScreen hoff)
  · exact Or.inl (by rw [heq]; exact (view_of_offScreen hoff).trans hactivate)
  · refine Or.inr ⟨pid, hfree, ?_, by rw [heq]; exact view_launched pid arg regs⟩
    have := room_of_accepted hroom hfree
    rwa [hactivate] at this

/-- A bottom shell that `halt` recognises is renewed in the first slot that is
free without it. -/
theorem halt_renews (hshell : fs.Executable shell) (h : Represents k.view S) {b : Fin 6}
    (hstack : S.stack k.view.executing = [b])
    (hbase : k.executing.programPid = k.executing.basePid)
    (status : Byte) (junk : Nat → Byte) (junkFd : Word) (regs : Regs) :
    ∃ f eip image, k.halting.retire.firstFree = some f ∧
      (halt fs k status junk junkFd regs).2 = .launched f eip image ∧
      (halt fs k status junk junkFd regs).1.view = k.view.retire.launch f regs := by
  have hprocess := (h.freed_process hstack).1
  have hb : k.view.process b = true := (h.allocated b).mpr ⟨k.view.executing, by simp [hstack]⟩
  have hgone := usedSlots_update k.view.process b false
  have hle := usedSlots_le k.view.process
  have hroom := h.room
  simp [hb] at hgone
  rw [← hprocess] at hgone
  have hviewProcess : k.halting.retire.process = k.view.retire.process := by
    rw [← view_retire]
    rfl
  -- the shell's own slot is free now, and the terminal is counted as one to be opened
  obtain ⟨f, hfree⟩ := exists_firstFree (k := k.halting.retire) (by rw [hviewProcess]; omega)
  obtain ⟨eip, image, hexec⟩ := execute_shell hshell k.halting.retire junk regs
    (by simp [Kernel.jammed, Kernel.retire])
    (tooManyProcesses_eq_false (by
      rw [view_activateExecuting, view_retire]
      simp only [View.retire, Function.update_idem, h.active_executing]
      have hsame : k.halting.retire.activateExecuting.process = k.view.retire.process :=
        hviewProcess
      rw [hsame]
      omega)) hfree
  refine ⟨f, eip, image, hfree, ?_⟩
  rcases halt_cases fs k status junk junkFd regs with
    ⟨_, pid, arg, eip', image', hrun, heq⟩ | ⟨_, k', v, hrun, _⟩ | ⟨hne, _⟩
  · rw [hexec] at hrun
    rw [heq, ← hrun]
    exact ⟨rfl, by rw [view_launched, view_retire]⟩
  · rw [hexec] at hrun
    cases hrun
  · exact absurd hbase hne

/-- Any other process gives back its slot, and its parent is resumed unless the
descriptor that `halt` closes has no jump table. -/
theorem halt_gives_back (fs : FileSystem) (hbase : k.executing.programPid ≠ k.executing.basePid)
    (status : Byte) (junk : Nat → Byte) (junkFd : Word) (regs : Regs) :
    ((halt fs k status junk junkFd regs).2 = .faulted ∨
      ∃ r, (halt fs k status junk junkFd regs).2 = .resumed (exitStatus k status) r) ∧
    (halt fs k status junk junkFd regs).1.view = k.view.giveBack k.view.current := by
  have hview : (k.halting.giveBack k.executing.programPid).view =
      k.view.giveBack k.view.current := view_giveBack k.executing.programPid
  rcases halt_cases fs k status junk junkFd regs with ⟨heq, _⟩ | ⟨heq, _⟩ | ⟨_, hhalt⟩
  · exact absurd heq hbase
  · exact absurd heq hbase
  · rw [hhalt, ← hview]
    rcases resumeParent_cases k.halting k.executing.programPid (exitStatus k status) junkFd with
      ⟨_, heq⟩ | ⟨_, heq⟩
    · rw [heq]
      exact ⟨Or.inl rfl, view_close junkFd⟩
    · rw [heq]
      exact ⟨Or.inr ⟨_, rfl⟩, view_close junkFd⟩

end Steps

/-! ## What an event does to the stacks -/

/-- The slot of the program that is launched. -/
def Control.launchedSlot : Control → Option (Fin 6)
  | .launched pid _ _ => some pid
  | _ => none

/-- The bottom shell that an event launches, with its terminal: opening a terminal
and renewing the shell of the executing one do. -/
def newShell (fs : FileSystem) (k : Kernel) : Event → Option (Fin 3 × Fin 6)
  | .switchTo t junk _ frame =>
    (switchTerminal fs k t junk frame).2.launchedSlot.map fun pid => (t, pid)
  | .halt status junk junkFd regs =>
    (halt fs k status junk junkFd regs).2.launchedSlot.map fun pid => (k.currTerminalExecuting, pid)
  | _ => none

/-- What the event `e` makes of the view of `k` and of the stacks `S`, and the
bottom shell it launches. -/
inductive Effect (k : Kernel) (S : Processes) :
    Event → View → Option (Fin 3 × Fin 6) → Processes → Prop
  | call {e : Event} (he : e.IsCall = true) : Effect k S e k.view none S
  | tick (regs : Regs) (hactive : k.view.active k.tickTarget = true) :
      Effect k S (.pitTick regs) (k.view.tick k.tickTarget regs) none S
  | same {t : Fin 3} {junk : Nat → Byte} {entry frame : Regs} (hvis : t = k.currTerminalVisible) :
      Effect k S (.switchTo t junk entry frame) k.view none S
  | show_ {t : Fin 3} {junk : Nat → Byte} {entry frame : Regs} (hvis : t ≠ k.currTerminalVisible)
      (hactive : k.view.active t = true) :
      Effect k S (.switchTo t junk entry frame) (k.view.show_ t) none S
  | opened {t : Fin 3} {junk : Nat → Byte} {entry frame : Regs} {pid : Fin 6}
      (hvis : t ≠ k.currTerminalVisible) (hinactive : k.view.active t = false)
      (hslot : k.firstFree = some pid) (hfree : ¬S.Owns pid) :
      Effect k S (.switchTo t junk entry frame) ((k.view.open_ t pid).launch pid frame)
        (some (t, pid)) (S.push t pid hfree)
  | refused {command : Option CString} {junk : Nat → Byte} {regs : Regs} :
      Effect k S (.execute command junk regs) k.view none S
  | launched {command : Option CString} {junk : Nat → Byte} {regs : Regs} {pid : Fin 6}
      (hslot : k.firstFree = some pid) (hfree : ¬S.Owns pid) :
      Effect k S (.execute command junk regs) (k.view.launch pid regs) none
        (S.push k.view.executing pid hfree)
  | renewed {status : Byte} {junk : Nat → Byte} {junkFd : Word} {regs : Regs} {b f : Fin 6}
      (hstack : S.stack k.view.executing = [b]) (hslot : k.halting.retire.firstFree = some f)
      (hfree : ¬(S.pop k.view.executing).Owns f) :
      Effect k S (.halt status junk junkFd regs) (k.view.retire.launch f regs)
        (some (k.view.executing, f)) ((S.pop k.view.executing).push k.view.executing f hfree)
  | popped {status : Byte} {junk : Nat → Byte} {junkFd : Word} {regs : Regs} {p q : Fin 6}
      {rest : List (Fin 6)} (hstack : S.stack k.view.executing = p :: q :: rest) :
      Effect k S (.halt status junk junkFd regs) (k.view.giveBack (View.slotOf p)) none
        (S.pop k.view.executing)

/-- The bottom of terminal `t`'s stack once the bottom shell `new` is launched. -/
def bottomAfter (S : Processes) (new : Option (Fin 3 × Fin 6)) (t : Fin 3) : Option (Fin 6) :=
  match new with
  | some (s, p) => if t = s then some p else (S.stack t).getLast?
  | none => (S.stack t).getLast?

/-- **Only a new bottom shell changes the bottom of a stack.** -/
theorem Effect.getLast? {k : Kernel} {S S' : Processes} {e : Event} {v' : View}
    {new : Option (Fin 3 × Fin 6)} (heff : Effect k S e v' new S') (h : Represents k.view S)
    (t : Fin 3) :
    (S'.stack t).getLast? = bottomAfter S new t := by
  have hexec := (h.active_iff k.view.executing).mp h.executing
  cases heff with
  | call | tick | same | show_ | refused => rfl
  | @opened s _ _ _ pid _ hinactive _ hfree =>
    by_cases hs : t = s
    · subst hs
      rw [getLast?_push_of_nil hfree (h.stack_eq_nil hinactive)]
      exact (if_pos rfl).symm
    · simp [bottomAfter, hs]
  | launched _ hfree => exact getLast?_push hfree hexec t
  | @renewed _ _ _ _ b f hstack _ hfree =>
    have hnil : (S.pop k.view.executing).stack k.view.executing = [] := by
      rw [pop_stack_self, hstack]
      rfl
    by_cases hs : t = k.view.executing
    · subst hs
      rw [getLast?_push_of_nil hfree hnil]
      exact (if_pos rfl).symm
    · simp [bottomAfter, hs]
  | popped hstack => exact getLast?_pop hstack t

/-- **An event is a few stack operations**: none, a push, a pop, or a pop and a push. -/
theorem Effect.operations {k : Kernel} {S S' : Processes} {e : Event} {v' : View}
    {new : Option (Fin 3 × Fin 6)} (heff : Effect k S e v' new S') :
    Relation.ReflTransGen Operation S S' := by
  cases heff with
  | call | tick | same | show_ | refused => exact .refl
  | opened _ _ _ hfree => exact .single (.push _ _ hfree)
  | launched _ hfree => exact .single (.push _ _ hfree)
  | renewed hstack _ hfree => exact .tail (.single (.pop _ hstack)) (.push _ _ hfree)
  | popped hstack => exact .single (.pop _ hstack)

/-- No terminal is opened while `execute` would return at once. -/
def OpensUnjammed (k : Kernel) : Event → Prop
  | .switchTo t .. => (k.multiTerminal t).active = false → k.jammed = false
  | _ => True

instance (k : Kernel) : (e : Event) → Decidable (OpensUnjammed k e)
  | .switchTo t .. =>
    inferInstanceAs (Decidable ((k.multiTerminal t).active = false → k.jammed = false))
  | .pitTick _ | .execute .. | .halt .. | .raiseException | .key _ | .ctrlL | .read .. | .lineServed
  | .write .. | .open _ | .close _ | .getargs .. | .vidmap _ => isTrue trivial

/-- `halt` takes a process for a bottom shell exactly if it is one. -/
def TakesItsBranch (k : Kernel) (S : Processes) : Event → Prop
  | .halt .. => k.executing.programPid = k.executing.basePid ↔
      ∃ b, S.stack k.currTerminalExecuting = [b]
  | _ => True

/-- **One event of the kernel is one operation on its stacks.** -/
theorem step_effect {fs : FileSystem} {k : Kernel} {S : Processes} {e : Event}
    (hshell : fs.Executable shell) (h : Represents k.view S) (hopens : OpensUnjammed k e)
    (hbranch : TakesItsBranch k S e) :
    ∃ S', Effect k S e (kernelStep fs k e).view (newShell fs k e) S' ∧
      Represents (kernelStep fs k e).view S' := by
  cases e with
  | pitTick regs =>
    obtain ⟨hactive, hrep⟩ := represents_pitHandler h regs
    refine ⟨S, ?_, hrep⟩
    rw [kernelStep, view_pitHandler]
    exact .tick regs hactive
  | switchTo t junk entry frame =>
    rcases switchTerminal_cases fs k t junk frame with
      ⟨hvis, heq⟩ | ⟨hvis, hact, heq⟩ | ⟨hvis, hact, _⟩
    · simp only [kernelStep, newShell, heq]
      exact ⟨S, .same hvis, h⟩
    · simp only [kernelStep, newShell, heq]
      rw [view_show]
      exact ⟨S, .show_ hvis hact, h.show_ hact⟩
    · obtain ⟨pid, eip, image, hfirst, hcontrol, hview⟩ :=
        switchTerminal_opens hshell h hvis hact (hopens hact) junk frame
      have hfree : k.view.process pid = false := (firstFree_eq_some.mp hfirst).1
      simp only [kernelStep, newShell, hcontrol, hview]
      exact ⟨_, .opened hvis hact hfirst (h.unowned hfree), h.opened hfree hact frame⟩
  | execute command junk regs =>
    rcases view_execute fs h command junk regs with heq | ⟨pid, hfirst, hroom, heq⟩
    · simp only [kernelStep, newShell, heq]
      exact ⟨S, .refused, h⟩
    · have hfree : k.view.process pid = false := (firstFree_eq_some.mp hfirst).1
      simp only [kernelStep, newShell, heq]
      exact ⟨_, .launched hfirst (h.unowned hfree), h.launch hfree regs hroom⟩
  | halt status junk junkFd regs =>
    by_cases hbase : k.executing.programPid = k.executing.basePid
    · obtain ⟨b, hstack⟩ := hbranch.mp hbase
      obtain ⟨f, eip, image, hfirst, hcontrol, hview⟩ :=
        halt_renews hshell h hstack hbase status junk junkFd regs
      have hslot := firstFree_eq_some.mp hfirst
      rw [show k.halting.retire.process = k.view.retire.process from by rw [← view_retire]; rfl]
        at hslot
      simp only [kernelStep, newShell, hcontrol, hview]
      exact ⟨_, .renewed hstack hfirst ((h.toLinks.retire hstack).unowned hslot.1),
        h.respawn hstack hslot.1 hslot.2 regs⟩
    · obtain ⟨p, rest, hstack, htop⟩ := h.executing_stack
      obtain ⟨hcontrol, hview⟩ := halt_gives_back fs hbase status junk junkFd regs
      have hslot : (halt fs k status junk junkFd regs).2.launchedSlot = none := by
        rcases hcontrol with heq | ⟨r, heq⟩ <;> rw [heq] <;> rfl
      have hcurrent : k.view.current = View.slotOf p := by
        rw [View.current, htop]
        rfl
      simp only [kernelStep, newShell, hslot, hview, hcurrent]
      cases rest with
      -- a bottom shell would have taken the other branch
      | nil => exact absurd (hbranch.mpr ⟨p, hstack⟩) hbase
      | cons q rest => exact ⟨_, .popped hstack, h.giveBack hstack⟩
  | raiseException | key | ctrlL | read | lineServed | write | «open» | close | getargs | vidmap =>
    rw [view_call rfl]
    exact ⟨S, .call rfl, h⟩

end LinuxLikeOS
