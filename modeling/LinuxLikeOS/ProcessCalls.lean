import LinuxLikeOS.CallingPrograms
import LinuxLikeOS.DirectoryReads
import LinuxLikeOS.FreshDescriptors

/-! # What a process sees of the kernel

To a process that has the machine to itself the kernel is a handful of open descriptors and a
text that grows (`Process`).  `processSystem` says what its system calls do to these; a call
that waits for a key, faults or sets the clock it does not answer.

The kernel's calls, made in a terminal that is visible and the only active one, stand for
them (`simulates_kernel`), also if the timer ticks between them: a tick saves the context of
the process and loads it again.  So a program does with the kernel what it does with
`processSystem`, as long as what its calls store lies in its page (`pageSystem`); elsewhere it
may overwrite the kernel.
-/
namespace LinuxLikeOS
open CallingPrograms CountedLoop

/-! ## Calls -/

/-- A system call: the pointer, what is in memory behind it, and the other arguments. -/
inductive UserCall
  | read (fd buf : Word) (old : Nat → Byte) (nbytes : Word)
  | write (fd buf : Word) (text : Nat → Byte) (nbytes : Word)
  | open (filename : Option CString)
  | close (fd : Word)
  | getargs (buf nbytes : Word)

/-- What comes back: `eax`, and the bytes stored from the pointer on. -/
structure Answer where
  ret : Word
  stored : List Byte
  deriving DecidableEq

/-- A program of a user. -/
abbrev UserProgram := Program UserCall Answer

/-- The system call in the kernel. -/
def UserCall.result (fs : FileSystem) (k : Kernel) : UserCall → CallResult
  | .read fd buf old nbytes => Syscall.read fs k fd buf old nbytes
  | .write fd buf text nbytes => Syscall.write k fd buf text nbytes
  | .open filename => Syscall.open fs k filename
  | .close fd => Syscall.close k fd
  | .getargs buf nbytes => Syscall.getargs k buf nbytes

/-- The kernel answers the calls that return. -/
def kernelSystem (fs : FileSystem) : System UserCall Answer Kernel := fun c k =>
  let r := c.result fs k
  r.ret.map fun ret => (⟨ret, r.stored⟩, r.kernel)

/-! ## The process by itself -/

/-- What a process has written and the descriptors it has. -/
structure Process where
  text : List Byte
  fds : Fin 8 → FdEntry

namespace Process
variable (p : Process)

def setFd (i : Fin 8) (e : FdEntry) : Process := { p with fds := Function.update p.fds i e }

/-- Moves the position of a descriptor on. -/
def advance (i : Fin 8) (n : Word) : Process :=
  p.setFd i { p.fds i with filePosition := (p.fds i).filePosition + n }

def print (text : List Byte) : Process := { p with text := p.text ++ text }

/-- The jump table of a descriptor that a call may use; `unusable` is the one number it
must not have. -/
def usable (fd buf : Word) (unusable : Fin 8) : Option (Fin 8) :=
  match fdIndex fd with
  | none => none
  | some i => if i = unusable ∨ buf = 0 then none else if (p.fds i).flag = 0 then none else some i

end Process

/-- A call that is refused. -/
def Answer.refused : Answer := ⟨minusOne, []⟩

/-- What the system calls do to a process that has the machine to itself; `arg` is its
argument. -/
def processSystem (fs : FileSystem) (arg : CString) : System UserCall Answer Process
  | .read fd buf _ nbytes, p =>
    match p.usable fd buf 1 with
    | none => some (.refused, p)
    | some i =>
      let e := p.fds i
      match e.fileOperation with
      | some .file =>
        let data := fs.readData e.inode e.filePosition nbytes
        some (⟨data.ret, data.stored⟩, if data.ret ≠ minusOne then p.advance i data.ret else p)
      | some .directory =>
        match fs.readDentryByIndex e.filePosition with
        | none => some (⟨0, []⟩, p)
        | some d =>
          some (⟨BitVec.ofNat 32 d.filename.strlen, d.filename.bytes⟩, p.advance i 1)
      | some .rtc => some (⟨0, []⟩, p)
      | _ => none
  | .write fd buf text nbytes, p =>
    match p.usable fd buf 0 with
    | none => some (.refused, p)
    | some i =>
      match (p.fds i).fileOperation with
      | some .stdout =>
        let written := (List.range nbytes.toInt.toNat).map text
        some (⟨BitVec.ofNat 32 written.length, []⟩, p.print written)
      | some .file | some .directory => some (.refused, p)
      | _ => none
  | .open filename, p =>
    match filename.bind fs.readDentryByName with
    | none => some (.refused, p)
    | some d =>
      match freeFd p.fds with
      | none => some (.refused, p)
      | some i => some (⟨BitVec.ofNat 32 i, []⟩, p.setFd i (openedEntry d))
  | .close fd, p =>
    match fdIndex fd with
    | none => some (.refused, p)
    | some i =>
      if i < 2 ∨ (p.fds i).flag = 0 then some (.refused, p)
      else
        match (p.fds i).fileOperation with
        | some .file | some .directory | some .rtc => some (⟨0, []⟩, p.setFd i .cleared)
        | _ => none
  | .getargs buf _, p =>
    some (if buf = 0 ∨ arg.strlen = 0 then .refused else ⟨0, arg.bytes ++ [0]⟩, p)

/-- The pointer that a call stores through. -/
def UserCall.pointer : UserCall → Word
  | .read _ buf _ _ | .write _ buf _ _ | .getargs buf _ => buf
  | .open _ | .close _ => 0

/-- At most so many bytes a call stores: `directory_read` and `getargs` do not look at `nbytes`. -/
def UserCall.room (arg : CString) : UserCall → Nat
  | .read _ _ _ nbytes => max nbytes.toNat 32
  | .getargs .. => arg.strlen + 1
  | .write .. | .open _ | .close _ => 0

/-- What is stored lies in the program page. -/
def AnswersInPage (c : UserCall) (a : Answer) : Prop := InPage c.pointer a.stored.length

instance (c : UserCall) (a : Answer) : Decidable (AnswersInPage c a) :=
  inferInstanceAs (Decidable (InPage _ _))

/-- The same for calls that store into the program page; others, which may overwrite the kernel,
have no answer. -/
def pageSystem (fs : FileSystem) (arg : CString) : System UserCall Answer Process :=
  restricted AnswersInPage (processSystem fs arg)

section Stored
variable {fs : FileSystem} {arg : CString} {c : UserCall} {p p' : Process} {a : Answer}

theorem length_readDentryByIndex {i : Word} {d : Dentry} (h : fs.readDentryByIndex i = some d) :
    d.filename.bytes.length ≤ 32 := by
  unfold FileSystem.readDentryByIndex at h
  split at h
  · rw [← Option.some.inj h]
    exact strlen_nameAt_le fs _
  · cases h

theorem length_readData_le (inode offset nbytes : Word) :
    (fs.readData inode offset nbytes).stored.length ≤ nbytes.toNat := by
  rw [FileSystem.length_readData]
  split
  · exact Nat.zero_le _
  · exact leading_le _ _

/-- A call stores no more than it has room for. -/
theorem stored_le_room (h : processSystem fs arg c p = some (a, p')) :
    a.stored.length ≤ c.room arg := by
  have hnone : ∀ {a' : Answer} {q : Process} {n : Nat}, a'.stored = [] →
      some (a', q) = some (a, p') → a.stored.length ≤ n := by
    intro a' q n hstored heq
    rw [← (Prod.mk.inj (Option.some.inj heq)).1, hstored]
    exact Nat.zero_le n
  cases c with
  | read fd buf old nbytes =>
    simp only [processSystem] at h
    split at h
    · exact hnone rfl h
    · split at h
      · rw [← (Prod.mk.inj (Option.some.inj h)).1]
        exact Nat.le_trans (length_readData_le _ _ _) (Nat.le_max_left _ _)
      · split at h
        · exact hnone rfl h
        · rename_i d hd
          rw [← (Prod.mk.inj (Option.some.inj h)).1]
          exact Nat.le_trans (length_readDentryByIndex hd) (Nat.le_max_right _ _)
      · exact hnone rfl h
      · cases h
  | write fd buf text nbytes =>
    simp only [processSystem] at h
    split at h
    · exact hnone rfl h
    · split at h
      · exact hnone rfl h
      · exact hnone rfl h
      · exact hnone rfl h
      · cases h
  | «open» filename =>
    simp only [processSystem] at h
    split at h
    · exact hnone rfl h
    · split at h <;> exact hnone rfl h
  | close fd =>
    simp only [processSystem] at h
    split at h
    · exact hnone rfl h
    · split at h
      · exact hnone rfl h
      · split at h
        · exact hnone rfl h
        · exact hnone rfl h
        · exact hnone rfl h
        · cases h
  | getargs buf nbytes =>
    simp only [processSystem, Option.some.injEq, Prod.mk.injEq] at h
    rw [← h.1]
    split
    · exact Nat.zero_le _
    · rw [List.length_append]
      exact Nat.le_refl _

/-- A call with room for what it may store is answered. -/
theorem inPage_of_room (c : UserCall) (p : Process) (a : Answer) (p' : Process)
    (hroom : InPage c.pointer (c.room arg)) (h : processSystem fs arg c p = some (a, p')) :
    AnswersInPage c a :=
  hroom.mono (stored_le_room h)

end Stored

/-! ## The kernel without what the process does not see -/

/-- The kernel without the control blocks, the address spaces and the clock. -/
def Kernel.offProcess (k : Kernel) : Kernel :=
  { k with
    pcb := fun _ => Pcb.zeroed
    pageDirectory := fun _ => Pde.zero
    tss := ⟨0, 0⟩
    nextTerminalExecuting := 0
    rtcRegA := 0
    rtcRegB := 0 }

/-- The process that runs has the machine to itself: its terminal is visible and the only
active one, `get_current_pid` finds it, and no write is going to be swallowed. -/
structure Alone (k : Kernel) : Prop where
  visible : k.currTerminalVisible = k.currTerminalExecuting
  guessed : k.guessedSlot = k.executingSlot
  jammer : k.jammer = false
  hotjam : k.hotjam = false
  active : k.executing.active = true
  others : ∀ t, t ≠ k.currTerminalExecuting → (k.multiTerminal t).active = false

/-- Since it was `k₀` the kernel has done for the process what `p` says. -/
structure Serves (k₀ k : Kernel) (p : Process) : Prop where
  console : k.offProcess = puts k₀.offProcess p.text
  fds : (k.pcb k₀.executingSlot).fd = p.fds
  arg : (k.pcb k₀.executingSlot).arg = (k₀.pcb k₀.executingSlot).arg
  parent : (k.pcb k₀.executingSlot).parentContext = (k₀.pcb k₀.executingSlot).parentContext
  others : ∀ b, b ≠ k₀.executingSlot → k.pcb b = k₀.pcb b

/-- The process that runs in `k`. -/
def Kernel.runningProcess (k : Kernel) : Process := ⟨[], (k.pcb k.executingSlot).fd⟩

section OffProcess

theorem putc_offProcess (k : Kernel) (c : Byte) : (putc k c).offProcess = putc k.offProcess c := by
  have hdraw : ∀ (k : Kernel) t base erase c,
      (drawChar k t base erase c).offProcess = drawChar k.offProcess t base erase c := by
    intro k t base erase c
    unfold drawChar
    dsimp only [Kernel.offProcess]
    repeat' split
    all_goals rfl
  have hchar : ∀ (k : Kernel) c, (putcChar k c).offProcess = putcChar k.offProcess c := by
    intro k c
    show syncCursor (putcCell k c).offProcess = _
    rw [putcCell, hdraw]
    rfl
  unfold putc
  split
  · show syncCursor (putcChar (putcChar (putcChar (putcChar k 0x20) 0x20) 0x20) 0x20).offProcess = _
    rw [hchar, hchar, hchar, hchar]
  · exact hchar k c

theorem puts_offProcess (k : Kernel) (text : List Byte) :
    (puts k text).offProcess = puts k.offProcess text := by
  induction text generalizing k with
  | nil => rfl
  | cons c text ih =>
    show (puts (putc k c) text).offProcess = puts (putc k.offProcess c) text
    rw [ih, putc_offProcess]

theorem puts_append (k : Kernel) (text text' : List Byte) :
    puts k (text ++ text') = puts (puts k text) text' :=
  List.foldl_append

theorem puts_pcb (k : Kernel) (text : List Byte) : (puts k text).pcb = k.pcb :=
  (congrArg Kernel.pcb (puts_offScreen k text) :)

end OffProcess

/-! ## What a process sees stays true -/

section Serves
variable {fs : FileSystem} {k₀ k k' : Kernel} {p : Process}

theorem Serves.offScreen (h : Serves k₀ k p) :
    k.offProcess.offScreen = k₀.offProcess.offScreen := by
  rw [h.console, puts_offScreen]

theorem Serves.currTerminalExecuting (h : Serves k₀ k p) :
    k.currTerminalExecuting = k₀.currTerminalExecuting :=
  (congrArg Kernel.currTerminalExecuting h.offScreen :)

theorem Serves.currTerminalVisible (h : Serves k₀ k p) :
    k.currTerminalVisible = k₀.currTerminalVisible :=
  (congrArg Kernel.currTerminalVisible h.offScreen :)

/-- The terminals are the same but for their places on the screen. -/
theorem Serves.terminal (h : Serves k₀ k p) (t : Fin 3) :
    { k.multiTerminal t with screenX := 0, screenY := 0 } =
      { k₀.multiTerminal t with screenX := 0, screenY := 0 } :=
  congrFun (congrArg Kernel.multiTerminal h.offScreen) t

theorem Serves.active (h : Serves k₀ k p) (t : Fin 3) :
    (k.multiTerminal t).active = (k₀.multiTerminal t).active :=
  (congrArg Terminal.active (h.terminal t) :)

theorem Serves.executingSlot (h : Serves k₀ k p) : k.executingSlot = k₀.executingSlot := by
  have hpid := congrArg Terminal.programPid (h.terminal k₀.currTerminalExecuting)
  show pcbIndex (k.multiTerminal k.currTerminalExecuting).programPid =
    pcbIndex (k₀.multiTerminal k₀.currTerminalExecuting).programPid
  rw [h.currTerminalExecuting]
  exact congrArg pcbIndex hpid

theorem Serves.guessedSlot (h : Serves k₀ k p) : k.guessedSlot = k₀.guessedSlot := by
  have hprocess : k.process = k₀.process := (congrArg Kernel.process h.offScreen :)
  unfold Kernel.guessedSlot Kernel.getCurrentPid Kernel.firstFree
  rw [hprocess]

theorem Serves.alone (h : Serves k₀ k p) (hk₀ : Alone k₀) : Alone k where
  visible := by rw [h.currTerminalVisible, h.currTerminalExecuting, hk₀.visible]
  guessed := by rw [h.guessedSlot, h.executingSlot, hk₀.guessed]
  jammer := (congrArg Kernel.jammer h.offScreen).trans hk₀.jammer
  hotjam := (congrArg Kernel.hotjam h.offScreen).trans hk₀.hotjam
  active := by
    show (k.multiTerminal k.currTerminalExecuting).active = true
    rw [h.active, h.currTerminalExecuting]
    exact hk₀.active
  others t ht := by
    rw [h.active]
    exact hk₀.others t (h.currTerminalExecuting ▸ ht)

/-- All three lookups find the process. -/
theorem Alone.visibleSlot (hk : Alone k) : k.visibleSlot = k.executingSlot := by
  show pcbIndex (k.multiTerminal k.currTerminalVisible).programPid = _
  rw [hk.visible]
  rfl

/-- A change of the descriptors of the process. -/
theorem Serves.setFd (h : Serves k₀ k p) (i : Fin 8) (e : FdEntry) :
    Serves k₀ (k.setFd k.executingSlot i e) (p.setFd i e) where
  console := h.console
  fds := by
    simp [Kernel.setFd, Kernel.setPcb, h.executingSlot, Process.setFd, h.fds]
  arg := by
    simp [Kernel.setFd, Kernel.setPcb, h.executingSlot, h.arg]
  parent := by
    rw [← h.parent]
    simp [Kernel.setFd, Kernel.setPcb, h.executingSlot, Pcb.parentContext]
  others b hb := by
    simp [Kernel.setFd, Kernel.setPcb, h.executingSlot, hb, h.others b hb]

theorem Serves.fd (h : Serves k₀ k p) : (k.pcb k.executingSlot).fd = p.fds := by
  rw [h.executingSlot, h.fds]

theorem Serves.advance (h : Serves k₀ k p) (i : Fin 8) (n : Word) :
    Serves k₀ (k.advance k.executingSlot i n) (p.advance i n) := by
  unfold Kernel.advance Process.advance
  rw [h.fd]
  exact h.setFd i _

theorem Serves.puts (h : Serves k₀ k p) (text : List Byte) :
    Serves k₀ (puts k text) (p.print text) where
  console := by
    rw [puts_offProcess, h.console]
    exact (puts_append k₀.offProcess p.text text).symm
  fds := by
    rw [puts_pcb, h.fds]
    rfl
  arg := by rw [puts_pcb, h.arg]
  parent := by rw [puts_pcb, h.parent]
  others b hb := by rw [puts_pcb, h.others b hb]

theorem serves_refl (k : Kernel) : Serves k k k.runningProcess :=
  ⟨rfl, rfl, rfl, rfl, fun _ _ => rfl⟩

/-- With one terminal active a tick goes to the terminal it comes from. -/
theorem Alone.tickTarget (hk : Alone k) : k.tickTarget = k.currTerminalExecuting := by
  have hactive : (k.multiTerminal k.tickTarget).active = true :=
    @nextActive_active (fun t => (k.multiTerminal t).active) _ hk.active k.nextTerminalExecuting
  by_contra hne
  rw [hk.others _ hne] at hactive
  cases hactive

/-- **A timer tick changes nothing that the process sees.** -/
theorem Serves.tick (hk₀ : Alone k₀) (h : Serves k₀ k p) (regs : Regs) :
    Serves k₀ (pitHandler k regs).1 p := by
  have htarget := (h.alone hk₀).tickTarget
  have hoff : (pitHandler k regs).1.offProcess = k.offProcess := by
    unfold pitHandler
    rw [htarget]
    rfl
  have hpcb : (pitHandler k regs).1.pcb = (k.saveContext regs).pcb := rfl
  refine ⟨hoff.trans h.console, ?_, ?_, ?_, fun b hb => ?_⟩
  · rw [hpcb, ← h.fds]
    simp [Kernel.saveContext, Kernel.setPcb, h.executingSlot]
  · rw [hpcb, ← h.arg]
    simp [Kernel.saveContext, Kernel.setPcb, h.executingSlot]
  · rw [hpcb, ← h.parent]
    simp [Kernel.saveContext, Kernel.setPcb, h.executingSlot, Pcb.parentContext]
  · rw [hpcb]
    simp [Kernel.saveContext, Kernel.setPcb, h.executingSlot, hb, h.others b hb]

theorem Serves.ticks (hk₀ : Alone k₀) (h : Serves k₀ k p) (ticks : List Regs) :
    Serves k₀ (ticks.foldl (fun k regs => (pitHandler k regs).1) k) p := by
  induction ticks generalizing k with
  | nil => exact h
  | cons regs ticks ih => exact ih (h.tick hk₀ regs)

/-! ## The calls -/

/-- The kernel answers as the process expects. -/
def AnswersAs (fs : FileSystem) (k₀ k : Kernel) (c : UserCall) (a : Answer) (p' : Process) : Prop :=
  ∃ k', kernelSystem fs c k = some (a, k') ∧ Serves k₀ k' p'

theorem dispatchRead_eq {slot : Byte} (hfds : (k.pcb slot).fd = p.fds) (fd buf : Word) :
    dispatchRead k slot fd buf =
      match p.usable fd buf 1 with
      | none => .refused
      | some i =>
        match (p.fds i).fileOperation with
        | none => .null i
        | some op => .driver i op := by
  unfold dispatchRead Process.usable
  rw [hfds]
  cases fdIndex fd with
  | none => rfl
  | some i =>
    by_cases hi : i = 1 ∨ buf = 0
    · simp only [if_pos hi]
    · simp only [if_neg hi]
      by_cases hflag : (p.fds i).flag = 0
      · simp only [if_pos hflag]
      · cases hop : (p.fds i).fileOperation <;> simp only [if_neg hflag, hop]

theorem usable_pointer {fd buf : Word} {unusable i : Fin 8}
    (h : p.usable fd buf unusable = some i) : buf ≠ 0 := by
  rintro rfl
  unfold Process.usable at h
  cases hfd : fdIndex fd <;> simp [hfd] at h

theorem read_serves {arg : CString} {fd buf nbytes : Word} {old : Nat → Byte} {a : Answer}
    {p' : Process} (hk₀ : Alone k₀) (h : Serves k₀ k p)
    (hcall : processSystem fs arg (.read fd buf old nbytes) p = some (a, p')) :
    AnswersAs fs k₀ k (.read fd buf old nbytes) a p' := by
  have hk := h.alone hk₀
  simp only [AnswersAs, kernelSystem, UserCall.result, Syscall.read, Syscall.readAnswered, readWith,
    hk.visibleSlot, hk.guessed, dispatchRead_eq h.fd]
  simp only [processSystem] at hcall
  cases husable : p.usable fd buf 1 with
  | none =>
    obtain ⟨rfl, rfl⟩ := Prod.mk.inj (Option.some.inj (husable ▸ hcall))
    exact ⟨k, rfl, h⟩
  | some i =>
    have hbuf := usable_pointer husable
    simp only [husable] at hcall ⊢
    cases hop : (p.fds i).fileOperation with
    | none => simp [hop] at hcall
    | some op =>
      cases op with
      | stdin | stdout => simp [hop] at hcall
      | file =>
        simp only [hop, Option.some.injEq, Prod.mk.injEq] at hcall
        obtain ⟨rfl, rfl⟩ := hcall
        simp only [runRead, fileRead, if_neg hbuf, h.fd, Option.map_some]
        refine ⟨_, rfl, ?_⟩
        split
        · exact h.advance i _
        · exact h
      | directory =>
        simp only [hop] at hcall
        simp only [runRead, directoryRead, if_neg hbuf, h.fd]
        cases hentry : fs.readDentryByIndex (p.fds i).filePosition with
        | none =>
          obtain ⟨rfl, rfl⟩ := Prod.mk.inj (Option.some.inj (hentry ▸ hcall))
          exact ⟨k, rfl, h⟩
        | some d =>
          simp only [hentry, Option.some.injEq, Prod.mk.injEq] at hcall
          obtain ⟨rfl, rfl⟩ := hcall
          exact ⟨_, rfl, h.advance i 1⟩
      | rtc =>
        simp only [hop, Option.some.injEq, Prod.mk.injEq] at hcall
        obtain ⟨rfl, rfl⟩ := hcall
        exact ⟨k, rfl, h⟩

theorem write_serves {arg : CString} {fd buf nbytes : Word} {text : Nat → Byte} {a : Answer}
    {p' : Process} (hk₀ : Alone k₀) (h : Serves k₀ k p)
    (hcall : processSystem fs arg (.write fd buf text nbytes) p = some (a, p')) :
    AnswersAs fs k₀ k (.write fd buf text nbytes) a p' := by
  have hk := h.alone hk₀
  simp only [AnswersAs, kernelSystem, UserCall.result, Syscall.write, h.fd]
  simp only [processSystem, Process.usable] at hcall
  cases hi : fdIndex fd with
  | none =>
    obtain ⟨rfl, rfl⟩ := Prod.mk.inj (Option.some.inj (hi ▸ hcall))
    exact ⟨k, rfl, h⟩
  | some i =>
    simp only [hi] at hcall ⊢
    by_cases hrefused : i = 0 ∨ buf = 0
    · simp only [if_pos hrefused, Option.some.injEq, Prod.mk.injEq] at hcall ⊢
      obtain ⟨rfl, rfl⟩ := hcall
      exact ⟨k, rfl, h⟩
    · simp only [if_neg hrefused] at hcall ⊢
      by_cases hflag : (p.fds i).flag = 0
      · simp only [if_pos hflag, Option.some.injEq, Prod.mk.injEq] at hcall ⊢
        obtain ⟨rfl, rfl⟩ := hcall
        exact ⟨k, rfl, h⟩
      · simp only [if_neg hflag] at hcall ⊢
        cases hop : (p.fds i).fileOperation with
        | none => simp [hop] at hcall
        | some op =>
          cases op with
          | stdin | rtc => simp [hop] at hcall
          | stdout =>
            simp only [hop, Option.some.injEq, Prod.mk.injEq] at hcall
            obtain ⟨rfl, rfl⟩ := hcall
            refine ⟨puts k ((List.range nbytes.toInt.toNat).map text), ?_, h.puts _⟩
            simp [runWrite, writeTerminal, hk.jammer, hk.hotjam, hk.visible, CallResult.returns,
              puts]
          | file | directory =>
            simp only [hop, Option.some.injEq, Prod.mk.injEq] at hcall
            obtain ⟨rfl, rfl⟩ := hcall
            exact ⟨k, rfl, h⟩

/-- A file that is found is opened: `file_open` finds it again. -/
theorem open_serves {arg : CString} {filename : Option CString} {a : Answer} {p' : Process}
    (h : Serves k₀ k p) (hcall : processSystem fs arg (.open filename) p = some (a, p')) :
    AnswersAs fs k₀ k (.open filename) a p' := by
  simp only [AnswersAs, kernelSystem, UserCall.result, Syscall.open]
  simp only [processSystem] at hcall
  cases filename with
  | none =>
    obtain ⟨rfl, rfl⟩ := Prod.mk.inj (Option.some.inj hcall)
    exact ⟨k, rfl, h⟩
  | some fname =>
    simp only [Option.bind_some] at hcall
    cases hfound : fs.readDentryByName fname with
    | none =>
      obtain ⟨rfl, rfl⟩ := Prod.mk.inj (Option.some.inj (hfound ▸ hcall))
      exact ⟨k, by simp only [hfound]; rfl, h⟩
    | some d =>
      simp only [hfound] at hcall ⊢
      rw [h.fd]
      cases hfree : freeFd p.fds with
      | none =>
        obtain ⟨rfl, rfl⟩ := Prod.mk.inj (Option.some.inj (hfree ▸ hcall))
        exact ⟨k, rfl, h⟩
      | some i =>
        simp only [hfree, Option.some.injEq, Prod.mk.injEq] at hcall
        obtain ⟨rfl, rfl⟩ := hcall
        have hset := h.setFd i (openedEntry d)
        have hopen : fileOpen fs fname = 0 := by rw [fileOpen, hfound]
        have hnot : ¬(d.filetype ≠ 1 ∧ fileOpen fs fname = minusOne) := by
          rw [hopen]
          exact fun hand => absurd hand.2 (by decide)
        dsimp only
        by_cases hrtc : d.filetype = 0
        · rw [if_pos hrtc]
          exact ⟨_, rfl, hset.console, hset.fds, hset.arg, hset.parent, hset.others⟩
        · rw [if_neg hrtc, if_neg hnot]
          exact ⟨_, rfl, hset⟩

theorem close_serves {arg : CString} {fd : Word} {a : Answer} {p' : Process}
    (h : Serves k₀ k p) (hcall : processSystem fs arg (.close fd) p = some (a, p')) :
    AnswersAs fs k₀ k (.close fd) a p' := by
  simp only [AnswersAs, kernelSystem, UserCall.result, Syscall.close, h.fd]
  simp only [processSystem] at hcall
  cases hi : fdIndex fd with
  | none =>
    obtain ⟨rfl, rfl⟩ := Prod.mk.inj (Option.some.inj (hi ▸ hcall))
    exact ⟨k, rfl, h⟩
  | some i =>
    simp only [hi] at hcall ⊢
    by_cases hlow : i < 2
    · simp only [hlow, true_or, if_true, Option.some.injEq, Prod.mk.injEq] at hcall ⊢
      obtain ⟨rfl, rfl⟩ := hcall
      exact ⟨k, rfl, h⟩
    · by_cases hflag : (p.fds i).flag = 0
      · simp only [hflag, or_true, if_true, Option.some.injEq, Prod.mk.injEq] at hcall
        obtain ⟨rfl, rfl⟩ := hcall
        refine ⟨k, ?_, h⟩
        simp only [hlow, hflag, if_true, if_false]
        rfl
      · simp only [hlow, hflag, or_self, if_false] at hcall ⊢
        cases hop : (p.fds i).fileOperation with
        | none => simp [hop] at hcall
        | some op =>
          cases op with
          | stdin | stdout => simp [hop] at hcall
          | file | directory | rtc =>
            simp only [hop, Option.some.injEq, Prod.mk.injEq] at hcall
            obtain ⟨rfl, rfl⟩ := hcall
            exact ⟨_, rfl, h.setFd i .cleared⟩

theorem getargs_serves {buf nbytes : Word} {a : Answer} {p' : Process} (hk₀ : Alone k₀)
    (h : Serves k₀ k p)
    (hcall : processSystem fs (k₀.pcb k₀.executingSlot).arg (.getargs buf nbytes) p =
      some (a, p')) : AnswersAs fs k₀ k (.getargs buf nbytes) a p' := by
  have hk := h.alone hk₀
  have harg : (k.pcb k.visibleSlot).arg = (k₀.pcb k₀.executingSlot).arg := by
    rw [hk.visibleSlot, h.executingSlot, h.arg]
  simp only [AnswersAs, kernelSystem, UserCall.result, Syscall.getargs, harg]
  simp only [processSystem, Option.some.injEq, Prod.mk.injEq] at hcall
  obtain ⟨rfl, rfl⟩ := hcall
  by_cases hbuf : buf = 0
  · simp only [hbuf, true_or, if_true]
    exact ⟨k, rfl, h⟩
  · by_cases hlen : (k₀.pcb k₀.executingSlot).arg.strlen = 0
    · simp only [hbuf, hlen, or_true, if_true, if_false]
      exact ⟨k, rfl, h⟩
    · simp only [hbuf, hlen, or_self, if_false]
      exact ⟨k, rfl, h⟩

/-- **The kernel's system calls stand for what the process sees of them.** -/
theorem simulates_kernel (fs : FileSystem) (hk₀ : Alone k₀) :
    Simulates (kernelSystem fs) (processSystem fs (k₀.pcb k₀.executingSlot).arg) (Serves k₀) := by
  intro c k p a p' h hcall
  cases c with
  | read fd buf old nbytes => exact read_serves hk₀ h hcall
  | write fd buf text nbytes => exact write_serves hk₀ h hcall
  | «open» filename => exact open_serves h hcall
  | close fd => exact close_serves h hcall
  | getargs buf nbytes => exact getargs_serves hk₀ h hcall

end Serves

/-! ## Programs over the kernel -/

/-- The timer ticks before the `n`th call, each time in the contexts of a list. -/
def ticking (ticks : Nat → List Regs) (n : Nat) (k : Kernel) : Kernel :=
  (ticks n).foldl (fun k regs => (pitHandler k regs).1) k

/-- The kernel, with a timer that ticks between the calls. -/
abbrev tickingSystem (fs : FileSystem) (ticks : Nat → List Regs) :
    System UserCall Answer (Kernel × Nat) :=
  interrupted (ticking ticks) (kernelSystem fs)

/-- What a call is to the machine. -/
def UserCall.event : UserCall → Event
  | .read fd buf old nbytes => .read fd buf old nbytes
  | .write fd buf text nbytes => .write fd buf text nbytes
  | .open filename => .open filename
  | .close fd => .close fd
  | .getargs buf nbytes => .getargs buf nbytes

section Programs
variable {fs : FileSystem} {α : Type}

theorem kernelStep_event (fs : FileSystem) (k : Kernel) (c : UserCall) :
    kernelStep fs k c.event = (c.result fs k).kernel := by
  cases c <;> rfl

/-- Ticks are events. -/
theorem ticking_run (fs : FileSystem) (ticks : Nat → List Regs) (n : Nat) (k : Kernel) :
    ticking ticks n k = (kernelMachine fs).run k ((ticks n).map .pitTick) := by
  unfold ticking
  generalize ticks n = rs
  induction rs generalizing k with
  | nil => rfl
  | cons regs rs ih => exact ih _

/-- A tick stores nothing through a pointer. -/
theorem ticks_store (fs : FileSystem) (k : Kernel) (ticks : List Regs) :
    (kernelMachine fs).Guarded (StoresInPage fs) k (ticks.map .pitTick) := by
  refine Transition.Machine.guarded_of_forall fun e he s => ?_
  obtain ⟨regs, -, rfl⟩ := List.mem_map.mp he
  trivial

/-- **A program's run is a run of the machine**: ticks, and calls that store into the page. -/
theorem run_events {ticks : Nat → List Regs} {program : UserProgram α} {k k' : Kernel} {n m : Nat}
    {a : α} (hrun : program.run (restricted AnswersInPage (tickingSystem fs ticks)) (k, n) =
      some (a, k', m)) :
    ∃ events, k' = (kernelMachine fs).run k events ∧
      (∀ e ∈ events, (∃ regs, e = .pitTick regs) ∨ ∃ c : UserCall, e = c.event) ∧
      (kernelMachine fs).Guarded (StoresInPage fs) k events := by
  -- on the program: the ticks before a call, the call, and the rest
  induction program generalizing k n with
  | done b =>
    obtain ⟨-, hstate⟩ := Prod.mk.inj (Option.some.inj hrun)
    obtain ⟨rfl, -⟩ := Prod.mk.inj hstate
    exact ⟨[], rfl, by simp, trivial⟩
  | stopped => cases hrun
  | call c next ih =>
    obtain ⟨⟨r, s⟩, hcall, hrest⟩ := Option.bind_eq_some_iff.mp hrun
    obtain ⟨hanswer, hpage⟩ := Option.filter_eq_some_iff.mp hcall
    obtain ⟨⟨r', k₁⟩, hkernel, heq⟩ := Option.map_eq_some_iff.mp hanswer
    obtain ⟨rfl, rfl⟩ := Prod.mk.inj heq
    obtain ⟨ret, -, heq⟩ := Option.map_eq_some_iff.mp hkernel
    obtain ⟨hr, hk₁⟩ := Prod.mk.inj heq
    obtain ⟨events, hevents, hkinds, hstores⟩ := ih r' hrest
    have hstep : kernelStep fs (ticking ticks n k) c.event = k₁ := (kernelStep_event ..).trans hk₁
    have hcallPage : StoresInPage fs (ticking ticks n k) c.event := by
      have hin : AnswersInPage c r' := of_decide_eq_true hpage
      rw [← hr] at hin
      cases c with
      | read | write | getargs => exact hin
      | «open» | close => trivial
    refine ⟨(ticks n).map .pitTick ++ c.event :: events, ?_, ?_, ?_⟩
    · rw [Transition.Machine.run_append, ← ticking_run, hevents, ← hstep]
      rfl
    · intro e he
      rcases List.mem_append.mp he with htick | hcons
      · obtain ⟨regs, -, rfl⟩ := List.mem_map.mp htick
        exact Or.inl ⟨regs, rfl⟩
      · rcases List.mem_cons.mp hcons with rfl | hlater
        · exact Or.inr ⟨c, rfl⟩
        · exact hkinds e hlater
    · refine Transition.Machine.guarded_append.mpr ⟨ticks_store fs k _, ?_⟩
      rw [← ticking_run]
      exact ⟨hcallPage,
        (congrArg (fun k => (kernelMachine fs).Guarded _ k events) hstep).mpr hstores⟩

theorem simulates_ticking (fs : FileSystem) {k₀ : Kernel} (hk₀ : Alone k₀)
    (ticks : Nat → List Regs) :
    Simulates (tickingSystem fs ticks) (processSystem fs (k₀.pcb k₀.executingSlot).arg)
      fun s p => Serves k₀ s.1 p :=
  (simulates_kernel fs hk₀).interrupted fun n _ _ h => h.ticks hk₀ (ticks n)

/-- A program that yields something over its descriptors and its text yields it over the
kernel, and the console shows the text. -/
theorem yields_kernel {k : Kernel} (hk : Alone k) (ticks : Nat → List Regs)
    {program : UserProgram α} {Q : α → Process → Prop}
    (h : Yields (processSystem fs (k.pcb k.executingSlot).arg) program k.runningProcess Q) :
    Yields (tickingSystem fs ticks) program (k, 0) fun a s =>
      ∃ p, Serves k s.1 p ∧ Q a p :=
  (simulates_ticking fs hk ticks).yields (serves_refl k) h

/-- **Programs and the kernel.**  Whatever a program that has nothing stored out of its page makes
of its descriptors and its text it makes of the kernel, however often the timer ticks: it comes
to the same end, the console is as if the text had been put there at once, the descriptors are the
same, and the process still has the machine to itself. -/
theorem program_overKernel {k : Kernel} (hk : Alone k) (ticks : Nat → List Regs)
    {program : UserProgram α} {a : α} {p : Process}
    (hrun : program.run (pageSystem fs (k.pcb k.executingSlot).arg) k.runningProcess =
      some (a, p)) :
    ∃ k' n events, program.run (tickingSystem fs ticks) (k, 0) = some (a, k', n) ∧
      k' = (kernelMachine fs).run k events ∧
      (∀ e ∈ events, (∃ regs, e = .pitTick regs) ∨ ∃ c : UserCall, e = c.event) ∧
      (kernelMachine fs).Guarded (StoresInPage fs) k events ∧
      k'.offProcess = puts k.offProcess p.text ∧ (k'.pcb k.executingSlot).fd = p.fds ∧
      (∀ b, b ≠ k.executingSlot → k'.pcb b = k.pcb b) ∧ Alone k' := by
  obtain ⟨⟨k', n⟩, hpage, hserves⟩ :=
    (simulates_ticking fs hk ticks).restricted.run (s := (k, 0)) (serves_refl k) hrun
  obtain ⟨_, hkernel, rfl⟩ := simulates_restricted.run rfl hpage
  obtain ⟨events, hevents, hkinds, hstores⟩ := run_events hpage
  exact ⟨k', n, events, hkernel, hevents, hkinds, hstores, hserves.console, hserves.fds,
    hserves.others, hserves.alone hk⟩

end Programs

/-- The first shell. -/
def firstShell : Kernel := booted shellImage zeroHardware noJunk ⟨0x7FFF00, 0x7FFF40⟩

theorem alone_firstShell : Alone firstShell where
  visible := by decide +kernel
  guessed := by decide +kernel
  jammer := by decide +kernel
  hotjam := by decide +kernel
  active := by decide +kernel
  others := by decide +kernel

/-- Opens the shell's file and writes the number of its descriptor. -/
def descriptorPrinter : UserProgram Word :=
  .call (.open (some shell)) fun opened =>
  .call (.write 1 0x8049000 (fun _ => 0x30 + opened.ret.setWidth 8) 1) fun written =>
  .done written.ret

theorem program_overKernel_descriptorPrinter :
    ∃ k' n events,
      descriptorPrinter.run (tickingSystem shellImage fun _ => [⟨0x7FDF00, 0x7FDF40⟩])
        (firstShell, 0) = some (1, k', n) ∧
      k' = (kernelMachine shellImage).run firstShell events ∧
      (∀ e ∈ events, (∃ regs, e = .pitTick regs) ∨ ∃ c : UserCall, e = c.event) ∧
      (kernelMachine shellImage).Guarded (StoresInPage shellImage) firstShell events ∧
      k'.offProcess = puts firstShell.offProcess [0x32] ∧
      (k'.pcb firstShell.executingSlot).fd =
        Function.update (firstShell.pcb firstShell.executingSlot).fd 2 ⟨some .file, 0, 0, 1⟩ ∧
      (∀ b, b ≠ firstShell.executingSlot → k'.pcb b = firstShell.pcb b) ∧ Alone k' := by
  have hfound : shellImage.readDentryByName shell = some ⟨shell, 2, 0⟩ := by
    decide +kernel
  have hfree : freeFd (firstShell.pcb firstShell.executingSlot).fd = some 2 := by decide +kernel
  have hconsole : ((firstShell.pcb firstShell.executingSlot).fd 1).flag = 1 ∧
      ((firstShell.pcb firstShell.executingSlot).fd 1).fileOperation = some .stdout := by
    decide +kernel
  have hfd : fdIndex 1#32 = some 1 := by decide
  refine program_overKernel alone_firstShell _ (a := 1) (p := ⟨[0x32], Function.update
    (firstShell.pcb firstShell.executingSlot).fd 2 ⟨some .file, 0, 0, 1⟩⟩) ?_
  -- neither call stores anything
  rw [pageSystem, run_restricted inPage_of_room
    (show descriptorPrinter.Calls _ from ⟨Or.inl rfl, fun _ => ⟨Or.inl rfl, fun _ => trivial⟩⟩)]
  simp [descriptorPrinter, Program.run, processSystem, Process.usable, Process.setFd,
    Process.print, hfound, hfree, hconsole, hfd, openedEntry, Kernel.runningProcess]

end LinuxLikeOS
