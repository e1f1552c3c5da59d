import LinuxLikeOS.Frames
import LinuxLikeOS.SwitchedScreens

/-! # Writes that are swallowed

`switch_terminal` raises `jammer` when it shows an active terminal, and `halt` raises `hotjam`
when it renews a bottom shell.  The next call of `write_terminal`, whoever makes it, takes a
raised flag down and returns 0 with nothing drawn.  With both flags down `write_terminal`
emits all its bytes on the executing terminal's screen and returns their number.

So output is lost, but each raising of a flag costs one write at most (`writesAnswered_run`).
-/
namespace LinuxLikeOS
open Transition

/-! ## One call -/

/-- The bytes a call of `write_terminal` is to emit. -/
def textToWrite (buf : Nat → Byte) (nbytes : Word) : List Byte :=
  (List.range nbytes.toInt.toNat).map buf

/-- The text is drawn as it stands: no backspace leaves the screen, and a hidden terminal
writes none. -/
def Kernel.Drawable (k : Kernel) (text : List Byte) : Prop :=
  (k.place k.currTerminalExecuting).StaysInside text ∧
    (k.currTerminalVisible ≠ k.currTerminalExecuting → NoBackspace text)

/-- All bytes are emitted in order, on the executing terminal's screen, and counted. -/
structure WritesAll (k : Kernel) (buf : Nat → Byte) (nbytes : Word) : Prop where
  ret : (writeTerminal k buf nbytes).2 = nbytes
  emitted : (writeTerminal k buf nbytes).1 = (textToWrite buf nbytes).foldl emitChar k
  written : (∀ t, (k.place t).OnScreen) → k.Drawable (textToWrite buf nbytes) →
    Wrote k.currTerminalExecuting (textToWrite buf nbytes) k (writeTerminal k buf nbytes).1

/-- Nothing is emitted or counted, and one raised flag is taken down, `jammer` first. -/
def Swallowed (k : Kernel) (buf : Nat → Byte) (nbytes : Word) : Prop :=
  writeTerminal k buf nbytes =
    (if k.jammer then { k with jammer := false } else { k with hotjam := false }, 0)

/-- A flag is up. -/
def Kernel.FlagUp (k : Kernel) : Prop := k.jammer = true ∨ k.hotjam = true

/-- A call with a number of bytes that is not negative writes them all if no flag is up, and is
swallowed if one is. -/
def WriteAnswered (k : Kernel) : Prop :=
  ∀ (buf : Nat → Byte) (nbytes : Word), 0 ≤ nbytes.toInt →
    (¬k.FlagUp → WritesAll k buf nbytes) ∧ (k.FlagUp → Swallowed k buf nbytes)

section Calls
variable {k : Kernel} {buf : Nat → Byte} {nbytes : Word}

/-- The loop of `write_terminal` chooses between `putc` and `k_putc` once. -/
theorem foldl_emitChar (text : List Byte) (k : Kernel) :
    text.foldl emitChar k =
      text.foldl (if k.currTerminalVisible = k.currTerminalExecuting then putc else kPutc) k := by
  induction text generalizing k with
  | nil => rfl
  | cons c text ih =>
    have hvis : (emitChar k c).currTerminalVisible = k.currTerminalVisible :=
      (congrArg Kernel.currTerminalVisible (emitChar_offScreen k c) :)
    have hexec : (emitChar k c).currTerminalExecuting = k.currTerminalExecuting :=
      (congrArg Kernel.currTerminalExecuting (emitChar_offScreen k c) :)
    rw [List.foldl_cons, List.foldl_cons, ih, hvis, hexec]
    congr 1
    unfold emitChar
    split <;> rfl

/-- What the loop draws is on the executing terminal's screen. -/
theorem wrote_emitChars (hon : ∀ t, (k.place t).OnScreen) {text : List Byte}
    (htext : k.Drawable text) : Wrote k.currTerminalExecuting text k (text.foldl emitChar k) := by
  obtain ⟨hinside, hhidden⟩ := htext
  rw [foldl_emitChar]
  by_cases hvis : k.currTerminalVisible = k.currTerminalExecuting
  · have hshown : Shown k.currTerminalExecuting k := ⟨hvis, hon⟩
    rw [if_pos hvis]
    exact (hshown.puts hinside).1
  · have hback : ∀ c ∈ text, c ≠ 0x08 := fun c hmem heq => hhidden hvis (heq ▸ hmem)
    have hstart : Hidden k.currTerminalExecuting k := ⟨rfl, hvis, hon⟩
    rw [if_neg hvis]
    exact (wrote_foldl (fun c hmem k' hk => hk.kPutc (hback c hmem)) hstart).1

/-- **With both flags down everything is written.** -/
theorem writesAll_of_flagsDown (hflags : ¬k.FlagUp) (hnbytes : 0 ≤ nbytes.toInt) :
    WritesAll k buf nbytes := by
  obtain ⟨hjammer, hhotjam⟩ := not_or.mp hflags
  have hcall : writeTerminal k buf nbytes =
      ((textToWrite buf nbytes).foldl emitChar k,
        BitVec.ofNat 32 (textToWrite buf nbytes).length) := by
    rw [foldl_emitChar]
    unfold writeTerminal
    rw [if_neg hjammer, if_neg hhotjam]
    rfl
  have hcount : BitVec.ofNat 32 (textToWrite buf nbytes).length = nbytes := by
    rw [textToWrite, List.length_map, List.length_range, ← BitVec.ofInt_natCast,
      Int.toNat_of_nonneg hnbytes, BitVec.ofInt_toInt]
  refine ⟨by rw [hcall, hcount], by rw [hcall], fun hon htext => ?_⟩
  rw [hcall]
  exact wrote_emitChars hon htext

theorem swallowed_of_flagUp (hflags : k.FlagUp) : Swallowed k buf nbytes := by
  unfold Swallowed writeTerminal
  by_cases hjammer : k.jammer = true
  · rw [if_pos hjammer, if_pos hjammer]
  · rw [if_neg hjammer, if_neg hjammer, if_pos (hflags.resolve_left hjammer)]

theorem writeAnswered (k : Kernel) : WriteAnswered k :=
  fun _ _ hnbytes => ⟨fun hflags => writesAll_of_flagsDown hflags hnbytes, swallowed_of_flagUp⟩

end Calls

/-! ## Runs -/

/-- The calls of `write` that come to `write_terminal`. -/
def WritesTerminal (k : Kernel) (fd buf : Word) : Prop :=
  ∃ i : Fin 8, fdIndex fd = some i ∧ i ≠ 0 ∧ buf ≠ 0 ∧
    ((k.pcb k.executingSlot).fd i).flag ≠ 0 ∧
    ((k.pcb k.executingSlot).fd i).fileOperation = some .stdout

instance (k : Kernel) (fd buf : Word) : Decidable (WritesTerminal k fd buf) :=
  inferInstanceAs (Decidable (∃ i : Fin 8, fdIndex fd = some i ∧ i ≠ 0 ∧ buf ≠ 0 ∧
    ((k.pcb k.executingSlot).fd i).flag ≠ 0 ∧
    ((k.pcb k.executingSlot).fd i).fileOperation = some .stdout))

/-- A `write` to the terminal does not return its number of bytes. -/
def LosesOutput (k : Kernel) : Event → Prop
  | .write fd buf text nbytes => WritesTerminal k fd buf ∧ 0 ≤ nbytes.toInt ∧
      (Syscall.write k fd buf text nbytes).ret ≠ some nbytes
  | _ => False

instance (k : Kernel) : (e : Event) → Decidable (LosesOutput k e)
  | .write .. => inferInstanceAs (Decidable (_ ∧ _ ∧ _))
  | .pitTick _ | .switchTo .. | .execute .. | .halt .. | .raiseException | .key _ | .ctrlL
  | .read .. | .lineServed | .open _ | .close _ | .getargs .. | .vidmap _ => isFalse id

/-- `switch_terminal` shows an active terminal, or `halt` meets a bottom shell. -/
def RaisesFlag (k : Kernel) : Event → Prop
  | .switchTo t .. => t ≠ k.currTerminalVisible ∧ (k.multiTerminal t).active = true
  | .halt .. => k.executing.programPid = k.executing.basePid
  | _ => False

instance (k : Kernel) : (e : Event) → Decidable (RaisesFlag k e)
  | .switchTo .. => inferInstanceAs (Decidable (_ ∧ _))
  | .halt .. => inferInstanceAs (Decidable (_ = _))
  | .pitTick _ | .execute .. | .raiseException | .key _ | .ctrlL | .read .. | .lineServed
  | .write .. | .open _ | .close _ | .getargs .. | .vidmap _ => isFalse id

/-- How many writes have been lost, and how often a flag has been raised. -/
structure WriteLog where
  lost : Nat
  raised : Nat
  deriving DecidableEq

/-- The counts after an event. -/
def recordWrites (k : Kernel) (e : Event) (log : WriteLog) : WriteLog where
  lost := log.lost + if LosesOutput k e then 1 else 0
  raised := log.raised + if RaisesFlag k e then 1 else 0

/-- The kernel and the counts. -/
def writeMachine (fs : FileSystem) : Machine (Kernel × WriteLog) Event :=
  (kernelMachine fs).withHistory recordWrites

/-- The number of flags that are up. -/
def Kernel.flagsUp (k : Kernel) : Nat := k.jammer.toNat + k.hotjam.toNat

section Flags
variable {fs : FileSystem} {k k' : Kernel}

theorem flagsUp_of_offConsole (h : k'.offConsole = k.offConsole) : k'.flagsUp = k.flagsUp :=
  (congrArg Kernel.flagsUp h :)

theorem flagsUp_of_offScreen (h : k'.offScreen = k.offScreen) : k'.flagsUp = k.flagsUp :=
  (congrArg Kernel.flagsUp h :)

/-- `execute` raises no flag. -/
theorem flagsUp_execute (command : Option CString) (junk : Nat → Byte) (regs : Regs) :
    (execute fs k command junk regs).1.flagsUp = k.flagsUp := by
  rcases execute_cases fs k command junk regs with
    ⟨_, heq⟩ | ⟨_, k', hoff | hoff, heq⟩ | ⟨_, pid, arg, eip, image, _, _, heq⟩ <;> rw [heq]
  · exact flagsUp_of_offScreen hoff
  · exact (flagsUp_of_offScreen hoff).trans rfl
  · rfl

theorem flagsUp_close (fd : Word) : (Syscall.close k fd).kernel.flagsUp = k.flagsUp :=
  close_keeps (P := fun k' => k'.flagsUp = k.flagsUp) rfl
    (fun op _ => (flagsUp_of_offConsole (runClose_offConsole k op) :)) fd

theorem flagsUp_resumeParent (currPid : Int) (status junkFd : Word) :
    (resumeParent k currPid status junkFd).1.flagsUp = k.flagsUp := by
  have hclose := flagsUp_close (k := k.giveBack currPid) junkFd
  rcases resumeParent_cases k currPid status junkFd with ⟨_, heq⟩ | ⟨_, heq⟩ <;> rw [heq]
  · exact hclose
  · exact hclose

/-- `halt` raises one flag at most, for a bottom shell. -/
theorem flagsUp_halt (status : Byte) (junk : Nat → Byte) (junkFd : Word) (regs : Regs) :
    (halt fs k status junk junkFd regs).1.flagsUp ≤
      k.flagsUp + if k.executing.programPid = k.executing.basePid then 1 else 0 := by
  have hretire : k.halting.retire.flagsUp ≤ k.flagsUp + 1 := by
    show k.jammer.toNat + 1 ≤ k.jammer.toNat + k.hotjam.toNat + 1
    omega
  have hexec : (execute fs k.halting.retire (some shell) junk regs).1.flagsUp =
      k.halting.retire.flagsUp := flagsUp_execute (some shell) junk regs
  rcases halt_cases fs k status junk junkFd regs with
    ⟨hbase, pid, arg, eip, image, hrun, heq⟩ | ⟨hbase, k', v, hrun, heq⟩ | ⟨hbase, heq⟩
  · rw [hrun] at hexec
    rw [heq, if_pos hbase, hexec]
    exact hretire
  · rw [hrun] at hexec
    rw [heq, if_pos hbase, flagsUp_resumeParent, hexec]
    exact hretire
  · rw [heq, if_neg hbase, flagsUp_resumeParent]
    exact Nat.le_refl _

theorem flagsUp_switchTerminal (t : Fin 3) (junk : Nat → Byte) (entry frame : Regs) :
    (switchTerminal fs k t junk frame).1.flagsUp ≤
      k.flagsUp + if RaisesFlag k (.switchTo t junk entry frame) then 1 else 0 := by
  rcases switchTerminal_cases fs k t junk frame with
    ⟨_, heq⟩ | ⟨hvis, hact, heq⟩ | ⟨_, _, heq⟩ <;> rw [heq]
  · exact Nat.le_add_right ..
  · rw [if_pos (show RaisesFlag k (.switchTo t junk entry frame) from ⟨hvis, hact⟩)]
    show 1 + k.hotjam.toNat ≤ k.jammer.toNat + k.hotjam.toNat + 1
    omega
  · rw [flagsUp_execute]
    exact Nat.le_add_right ..

/-- A read raises no flag. -/
theorem flagsUp_ofTerminal (old : Nat → Byte) (nbytes : Word) (touched : List (Byte × Fin 8)) :
    (CallResult.ofTerminal k touched (readTerminal k old nbytes)).kernel.flagsUp ≤ k.flagsUp := by
  have hclear : ∀ k : Kernel, (clearVisibleLine k).flagsUp = k.flagsUp :=
    fun k => flagsUp_of_offConsole (clearVisibleLine_offConsole k)
  have hdown : ({ k with jammer := false } : Kernel).flagsUp ≤ k.flagsUp := by
    show 0 + k.hotjam.toNat ≤ k.jammer.toNat + k.hotjam.toNat
    omega
  rcases readTerminal_cases k old nbytes with
    ⟨_, h⟩ | ⟨_, _, _, h⟩ | ⟨_, _, _, h⟩ | ⟨_, _, h⟩ <;> rw [h]
  · exact Nat.le_refl _
  · exact hdown
  · exact (hclear _).trans_le hdown
  · exact (hclear k).le

/-- A call of `write_terminal` takes a flag down, or draws. -/
theorem flagsUp_writeTerminal (k : Kernel) (buf : Nat → Byte) (nbytes : Word) :
    (writeTerminal k buf nbytes).1.flagsUp = k.flagsUp - 1 := by
  have hoff := congrArg Kernel.flagsUp (writeTerminal_offConsole k buf nbytes)
  have hsame : ∀ k : Kernel, k.offConsole.flagsUp = k.flagsUp := fun _ => rfl
  rw [hsame] at hoff
  rw [hoff]
  show 0 + (k.jammer && k.hotjam).toNat = k.jammer.toNat + k.hotjam.toNat - 1
  cases k.jammer <;> cases k.hotjam <;> rfl

theorem flagsUp_read (fd buf : Word) (old : Nat → Byte) (nbytes : Word) :
    (Syscall.read fs k fd buf old nbytes).kernel.flagsUp ≤ k.flagsUp :=
  read_keeps (P := fun k' => k'.flagsUp ≤ k.flagsUp) (Nat.le_refl _)
    (fun _ _ _ => Nat.le_refl _) (flagsUp_ofTerminal old nbytes [])
    ((flagsUp_writeTerminal k old nbytes).le.trans (Nat.sub_le ..)) fd buf

theorem flagsUp_write (fd buf : Word) (text : Nat → Byte) (nbytes : Word) :
    (Syscall.write k fd buf text nbytes).kernel.flagsUp ≤ k.flagsUp :=
  write_keeps (P := fun k' => k'.flagsUp ≤ k.flagsUp) (Nat.le_refl _)
    (flagsUp_ofTerminal text nbytes [])
    ((flagsUp_writeTerminal k text nbytes).le.trans (Nat.sub_le ..)) (fun _ => Nat.le_refl _) fd buf

/-- A write that comes to `write_terminal`. -/
theorem write_terminal_of {fd buf : Word} (h : WritesTerminal k fd buf) (text : Nat → Byte)
    (nbytes : Word) :
    (Syscall.write k fd buf text nbytes).ret = some (writeTerminal k text nbytes).2 ∧
      (Syscall.write k fd buf text nbytes).kernel = (writeTerminal k text nbytes).1 := by
  obtain ⟨i, hfd, hi, hbuf, hflag, hop⟩ := h
  simp only [Syscall.write, hfd, hi, hbuf, or_self, if_false, hflag, hop]
  exact ⟨rfl, rfl⟩

/-- **A lost write takes a flag down.** -/
theorem flagsUp_lost {fd buf : Word} {text : Nat → Byte} {nbytes : Word}
    (h : LosesOutput k (.write fd buf text nbytes)) :
    (Syscall.write k fd buf text nbytes).kernel.flagsUp + 1 ≤ k.flagsUp := by
  obtain ⟨hterminal, hnbytes, hret⟩ := h
  obtain ⟨hcall, hkernel⟩ := write_terminal_of hterminal text nbytes
  have hup : k.FlagUp := by
    by_contra hdown
    rw [hcall, (writesAll_of_flagsDown hdown hnbytes).ret] at hret
    exact hret rfl
  have hpos : 1 ≤ k.flagsUp := by
    unfold Kernel.flagsUp
    rcases hup with h | h <;> rw [h] <;> simp
  rw [hkernel, flagsUp_writeTerminal]
  omega

/-- **One event**: lost writes are paid for by flags that were up, flags by raisings. -/
theorem flagsUp_step (fs : FileSystem) (k : Kernel) (e : Event) :
    (kernelStep fs k e).flagsUp + (if LosesOutput k e then 1 else 0) ≤
      k.flagsUp + if RaisesFlag k e then 1 else 0 := by
  have hquiet : ∀ k' : Kernel, k'.flagsUp ≤ k.flagsUp → k'.flagsUp + 0 ≤ k.flagsUp + 0 :=
    fun _ h => h
  cases e with
  | pitTick regs => exact Nat.le_refl _
  | switchTo t junk entry frame => exact flagsUp_switchTerminal t junk entry frame
  | execute command junk regs => exact hquiet _ (flagsUp_execute command junk regs).le
  | halt status junk junkFd regs => exact flagsUp_halt status junk junkFd regs
  | raiseException => exact Nat.le_refl _
  | key c => exact hquiet _ (flagsUp_of_offConsole (keyPressed_offConsole k c)).le
  | ctrlL => exact hquiet _ (flagsUp_of_offConsole (ctrlLPressed_offConsole k)).le
  | read fd buf old nbytes => exact hquiet _ (flagsUp_read fd buf old nbytes)
  | lineServed => exact hquiet _ (flagsUp_of_offConsole (serveLine_offConsole k)).le
  | write fd buf text nbytes =>
    by_cases hlost : LosesOutput k (.write fd buf text nbytes)
    · rw [if_pos hlost]
      exact flagsUp_lost hlost
    · rw [if_neg hlost]
      exact hquiet _ (flagsUp_write fd buf text nbytes)
  | «open» filename =>
    exact hquiet _ (open_keeps (P := fun k' => k'.flagsUp ≤ k.flagsUp) (Nat.le_refl _)
      (fun _ _ => Nat.le_refl _) (fun _ _ => Nat.le_refl _) filename)
  | close fd => exact hquiet _ (flagsUp_close fd).le
  | getargs buf nbytes =>
    exact hquiet _ (congrArg Kernel.flagsUp (getargs_kernel buf nbytes)).le
  | vidmap screenStart =>
    exact hquiet _ (vidmap_keeps (P := fun k' => k'.flagsUp ≤ k.flagsUp) (Nat.le_refl _)
      (fun _ => Nat.le_refl _) screenStart)

end Flags

/-- **Lost output.**  In every run, in every state: `write_terminal` with a number of bytes that
is not negative writes them all and returns their number, unless a flag is up, and then it is
swallowed; and no more writes have been lost than flags have been raised by switches to active
terminals and halts of bottom shells. -/
theorem writesAnswered_run (fs : FileSystem) (h : Hardware) (junk : Nat → Byte) (regs : Regs)
    (es : List Event) :
    (writeMachine fs).Always (fun c => WriteAnswered c.1 ∧ c.2.lost ≤ c.2.raised)
      (booted fs h junk regs, ⟨0, 0⟩) es := by
  have hboot : (booted fs h junk regs).flagsUp = 0 := by
    have hinit : (initialised h).flagsUp = 0 := rfl
    rw [booted, flagsUp_execute, hinit]
  have hstep : ∀ (c : Kernel × WriteLog) (e : Event), c.2.lost + c.1.flagsUp ≤ c.2.raised → True →
      ((writeMachine fs).step c e).2.lost + ((writeMachine fs).step c e).1.flagsUp ≤
        ((writeMachine fs).step c e).2.raised := by
    intro c e hc _
    have hevent := flagsUp_step fs c.1 e
    show (c.2.lost + _) + (kernelStep fs c.1 e).flagsUp ≤ c.2.raised + _
    omega
  refine (Machine.always_of_step (I := fun c => c.2.lost + c.1.flagsUp ≤ c.2.raised) hstep ?_
    (Machine.guarded_true ..)).mono fun c hc => ⟨writeAnswered c.1, by omega⟩
  show 0 + (booted fs h junk regs).flagsUp ≤ 0
  omega

/-- The first shell's terminal is left and shown again. -/
def leftAndShown : List Event :=
  [.switchTo 1 noJunk ⟨0x7FFE00, 0x7FFE40⟩ ⟨0x7FFD00, 0x7FFD40⟩,
    .switchTo 0 noJunk ⟨0x7FFE00, 0x7FFE40⟩ ⟨0x7FFD00, 0x7FFD40⟩]

/-- Then a write returns 0. -/
theorem write_leftAndShown :
    ¬∀ (fs : FileSystem) (h : Hardware) (junk : Nat → Byte) (regs : Regs) (es : List Event),
      (kernelMachine fs).Always
        (fun k => ∀ (buf : Nat → Byte) (nbytes : Word), 0 ≤ nbytes.toInt → WritesAll k buf nbytes)
        (booted fs h junk regs) es := by
  intro hall
  have hwrite := (hall shellImage zeroHardware noJunk ⟨0x7FFF00, 0x7FFF40⟩ leftAndShown).last
    (fun _ => 0x61) 1 (by decide)
  exact absurd hwrite.ret (by decide +kernel)

end LinuxLikeOS
