import LinuxLikeOS.PointerSafety
import LinuxLikeOS.SlotOwnership

/-! # Whose descriptor `read` uses

A `read` of the executing process should work on that process's descriptor and on no
other.  `open`, `write` and `close` do; `read` dispatches on the control block of the
visible terminal's program, and its file and directory drivers take theirs from
`get_current_pid`.

`ReadIsolated` is what isolation means for one call: the descriptors consulted, the
result, what is read and how far the position moves, and the frame, which includes the memory of
the control blocks.  It holds exactly if the lookups that the call makes find the
executing process (`LooksUpItself`), in any state of the kernel, for any buffer in the program
page.
-/
namespace LinuxLikeOS
open Transition

/-! ## Isolation of one call -/

/-- Where `get_pcb` finds a control block; the 8KB from there on are this process's. -/
def pcbAddress (pid : Byte) : Word := 0x800000 - 0x2000 * (1 + pid.setWidth 32)

/-- The entry, moved on. -/
def FdEntry.movedOn (e : FdEntry) (n : Word) : FdEntry :=
  { e with filePosition := e.filePosition + n }

/-- What a `read` through the open file `e`, descriptor `i` of the control block `slot`, gives: the
inode's bytes from its position on; and the position moves on by their number. -/
def ReadsFile (fs : FileSystem) (e : FdEntry) (slot : Byte) (i : Fin 8) (nbytes : Word)
    (r : CallResult) : Prop :=
  let data := fs.readData e.inode e.filePosition nbytes
  r.ret = some data.ret ∧ r.stored = data.stored ∧
    (r.kernel.pcb slot).fd i = if data.ret = minusOne then e else e.movedOn data.ret

/-- The same for an open directory: the name of the entry at its position; and the position moves
on to the next, unless there is none. -/
def ReadsDirectory (fs : FileSystem) (e : FdEntry) (slot : Byte) (i : Fin 8)
    (r : CallResult) : Prop :=
  match fs.readDentryByIndex e.filePosition with
  | none => r.ret = some 0 ∧ r.stored = [] ∧ (r.kernel.pcb slot).fd i = e
  | some d => r.ret = some (BitVec.ofNat 32 d.filename.strlen) ∧ r.stored = d.filename.bytes ∧
      (r.kernel.pcb slot).fd i = e.movedOn 1

/-- A `read` of the executing process consults only that process's descriptor `fd`,
does what `read` on this descriptor does, reads an open file or directory at the position in this
descriptor, moves that position on, and changes no other descriptor. -/
structure ReadIsolated (fs : FileSystem) (k : Kernel) (fd buf : Word) (old : Nat → Byte)
    (nbytes : Word) : Prop where
  own : ∀ d ∈ (Syscall.read fs k fd buf old nbytes).touched,
    d.1 = k.executingSlot ∧ fdIndex fd = some d.2
  result : Syscall.read fs k fd buf old nbytes =
    readWith fs k k k.executingSlot k.executingSlot fd buf old nbytes
  file : ∀ i, dispatchRead k k.executingSlot fd buf = .driver i .file →
    ReadsFile fs ((k.pcb k.executingSlot).fd i) k.executingSlot i nbytes
      (Syscall.read fs k fd buf old nbytes)
  directory : ∀ i, dispatchRead k k.executingSlot fd buf = .driver i .directory →
    ReadsDirectory fs ((k.pcb k.executingSlot).fd i) k.executingSlot i
      (Syscall.read fs k fd buf old nbytes)
  console : ∀ i, dispatchRead k k.executingSlot fd buf ≠ .driver i .file →
    dispatchRead k k.executingSlot fd buf ≠ .driver i .directory →
      ((Syscall.read fs k fd buf old nbytes).kernel.pcb k.executingSlot).fd i =
        (k.pcb k.executingSlot).fd i
  frame : ∀ slot i, slot ≠ k.executingSlot ∨ fdIndex fd ≠ some i →
    ((Syscall.read fs k fd buf old nbytes).kernel.pcb slot).fd i = (k.pcb slot).fd i
  apart : ∀ j < (Syscall.read fs k fd buf old nbytes).stored.length, ∀ pid,
    ¬(pcbAddress pid ≤ buf + BitVec.ofNat 32 j ∧
      buf + BitVec.ofNat 32 j < pcbAddress pid + 0x2000)

/-- The arguments that `read` refuses before it looks at a control block. -/
def RefusedByRead (fd buf : Word) : Prop := fdIndex fd = none ∨ fdIndex fd = some 1 ∨ buf = 0

/-- The control block `read` finds is the executing process's, and if the descriptor
there is an open file or directory, so is the one its driver finds. -/
def LooksUpItself (k : Kernel) (fd : Word) : Prop :=
  k.visibleSlot = k.executingSlot ∧
    ∀ i, fdIndex fd = some i → ((k.pcb k.executingSlot).fd i).flag ≠ 0 →
      ((k.pcb k.executingSlot).fd i).fileOperation = some .file ∨
        ((k.pcb k.executingSlot).fd i).fileOperation = some .directory →
      k.guessedSlot = k.executingSlot

/-! ## What a driver consults and changes -/

section Drivers
variable {fs : FileSystem} {k : Kernel}

theorem setFd_other {slot slot' : Byte} {i j : Fin 8} {e : FdEntry}
    (h : slot' ≠ slot ∨ j ≠ i) : ((k.setFd slot i e).pcb slot').fd j = (k.pcb slot').fd j := by
  by_cases hs : slot' = slot
  · subst hs
    have hj : j ≠ i := h.resolve_left (· rfl)
    simp [Kernel.setFd, Kernel.setPcb, hj]
  · simp [Kernel.setFd, Kernel.setPcb, hs]

theorem advance_self (slot : Byte) (i : Fin 8) (n : Word) :
    ((k.advance slot i n).pcb slot).fd i = ((k.pcb slot).fd i).movedOn n := by
  simp [Kernel.advance, Kernel.setFd, Kernel.setPcb, FdEntry.movedOn]

/-- Only the file and directory drivers change a descriptor. -/
theorem runRead_console_fd {op : FileOperation} (hop : ¬(op = .file ∨ op = .directory))
    (slot : Byte) (i : Fin 8) (buf : Word) (old : Nat → Byte) (nbytes : Word) (slot' : Byte)
    (j : Fin 8) :
    ((runRead fs k slot i op buf old nbytes).kernel.pcb slot').fd j = (k.pcb slot').fd j := by
  have hconsole : ∀ {k' : Kernel}, k'.offConsole.pcb = k.offConsole.pcb →
      (k'.pcb slot').fd j = (k.pcb slot').fd j := fun heq =>
    congrArg (fun p => (p slot').fd j) heq
  cases op with
  | stdin =>
    obtain ⟨_, hterminal⟩ := ofTerminal_offConsole k old nbytes []
    exact hconsole ((congrArg Kernel.pcb hterminal).trans rfl)
  | stdout =>
    exact hconsole ((congrArg Kernel.pcb (writeTerminal_offConsole k old nbytes)).trans rfl)
  | file | directory => simp at hop
  | rtc => rfl

/-- A driver changes no descriptor but the one it was called for. -/
theorem runRead_frame (slot : Byte) (i : Fin 8) (op : FileOperation) (buf : Word)
    (old : Nat → Byte) (nbytes : Word) {slot' : Byte} {j : Fin 8} (h : slot' ≠ slot ∨ j ≠ i) :
    ((runRead fs k slot i op buf old nbytes).kernel.pcb slot').fd j = (k.pcb slot').fd j := by
  cases op with
  | file =>
    simp only [runRead, fileRead]
    split
    · rfl
    · dsimp only
      split
      · exact setFd_other h
      · rfl
  | directory =>
    simp only [runRead, directoryRead]
    split
    · rfl
    · split
      · rfl
      · exact setFd_other h
  | stdin | stdout | rtc => exact runRead_console_fd (by simp) slot i buf old nbytes slot' j

theorem touched_ofTerminal (touched : List (Byte × Fin 8)) (r : TerminalRead) :
    (CallResult.ofTerminal k touched r).touched = touched := by
  cases r <;> rfl

/-- A driver consults the descriptor it was called for, and only the file and
directory drivers consult one. -/
theorem runRead_touched {buf : Word} (hbuf : buf ≠ 0) (slot : Byte) (i : Fin 8)
    (op : FileOperation) (old : Nat → Byte) (nbytes : Word) :
    (runRead fs k slot i op buf old nbytes).touched =
      if op = .file ∨ op = .directory then [(slot, i)] else [] := by
  cases op with
  | stdin => exact touched_ofTerminal [] _
  | stdout => rfl
  | file =>
    simp only [runRead, fileRead, if_neg hbuf]
    rfl
  | directory =>
    simp only [runRead, directoryRead, if_neg hbuf]
    split <;> rfl
  | rtc => rfl

/-- A driver that consults no descriptor does not depend on the control block. -/
theorem runRead_console {op : FileOperation} (hop : ¬(op = .file ∨ op = .directory))
    (slot slot' : Byte) (i : Fin 8) (buf : Word) (old : Nat → Byte) (nbytes : Word) :
    runRead fs k slot i op buf old nbytes = runRead fs k slot' i op buf old nbytes := by
  cases op with
  | file | directory => simp at hop
  | _ => rfl

end Drivers

/-! ## Isolation and the three lookups -/

section Isolation
variable {fs : FileSystem} {k : Kernel} {fd buf : Word} {old : Nat → Byte} {nbytes : Word}

/-- Arguments that are not refused name a descriptor other than 1 and a buffer. -/
theorem not_refused (h : ¬RefusedByRead fd buf) :
    ∃ i, fdIndex fd = some i ∧ i ≠ 1 ∧ buf ≠ 0 := by
  simp only [RefusedByRead, not_or] at h
  obtain ⟨hnone, hone, hbuf⟩ := h
  obtain ⟨i, hfd⟩ := Option.ne_none_iff_exists'.mp hnone
  refine ⟨i, hfd, ?_, hbuf⟩
  rintro rfl
  exact hone hfd

/-- A refused call consults nothing, whatever control block it would have found. -/
theorem readWith_refused (h : RefusedByRead fd buf) (slot driverSlot : Byte) :
    readWith fs k k slot driverSlot fd buf old nbytes = .returns k minusOne [] := by
  unfold readWith dispatchRead consultedByRead
  cases hfd : fdIndex fd with
  | none => rfl
  | some i =>
    have hi : i = 1 ∨ buf = 0 := by
      rcases h with h | h | h
      · rw [hfd] at h; cases h
      · rw [hfd, Option.some.injEq] at h; exact Or.inl h
      · exact Or.inr h
    simp only [if_pos hi]

/-- What `read` does when its arguments are not refused, by the descriptor it is
dispatched on. -/
theorem readWith_eq (fs : FileSystem) (k : Kernel) (old : Nat → Byte) (nbytes : Word) {i : Fin 8}
    (hfd : fdIndex fd = some i) (hi : i ≠ 1) (hbuf : buf ≠ 0) (slot driverSlot : Byte) :
    readWith fs k k slot driverSlot fd buf old nbytes =
      if ((k.pcb slot).fd i).flag = 0 then .returns k minusOne [(slot, i)]
      else
        match ((k.pcb slot).fd i).fileOperation with
        | none => ⟨k, none, [], [(slot, i)]⟩
        | some op =>
          { runRead fs k driverSlot i op buf old nbytes with
            touched := (slot, i) :: (runRead fs k driverSlot i op buf old nbytes).touched } := by
  have hok : ¬(i = 1 ∨ buf = 0) := not_or.mpr ⟨hi, hbuf⟩
  simp only [readWith, dispatchRead, consultedByRead, hfd, if_neg hok]
  by_cases hflag : ((k.pcb slot).fd i).flag = 0
  · simp only [if_pos hflag]
  · simp only [if_neg hflag]
    cases ((k.pcb slot).fd i).fileOperation <;> rfl

/-- A `read` looked up in the executing process is isolated. -/
theorem readWith_own (fs : FileSystem) (k : Kernel) (fd buf : Word) (old : Nat → Byte)
    (nbytes : Word) (slot : Byte) :
    (∀ d ∈ (readWith fs k k slot slot fd buf old nbytes).touched,
      d.1 = slot ∧ fdIndex fd = some d.2) ∧
    ∀ slot' j, slot' ≠ slot ∨ fdIndex fd ≠ some j →
      ((readWith fs k k slot slot fd buf old nbytes).kernel.pcb slot').fd j =
        (k.pcb slot').fd j := by
  by_cases href : RefusedByRead fd buf
  · rw [readWith_refused href]
    exact ⟨fun d hd => (List.not_mem_nil hd).elim, fun _ _ _ => rfl⟩
  · obtain ⟨i, hfd, hi, hbuf⟩ := not_refused href
    rw [readWith_eq fs k old nbytes hfd hi hbuf]
    split
    · exact ⟨by simp [CallResult.returns, hfd], fun _ _ _ => rfl⟩
    · split
      · exact ⟨by simp [hfd], fun _ _ _ => rfl⟩
      · rename_i op _
        refine ⟨?_, ?_⟩
        · rw [runRead_touched hbuf]
          split <;> simp [hfd]
        · intro slot' j hne
          refine runRead_frame slot i op buf old nbytes (hne.imp id fun hj => ?_)
          rintro rfl
          exact hj hfd

/-- A `read` through an open file reads at the position in its descriptor. -/
theorem readsFile_own {slot : Byte} {i : Fin 8} (h : dispatchRead k slot fd buf = .driver i .file) :
    ReadsFile fs ((k.pcb slot).fd i) slot i nbytes
      (readWith fs k k slot slot fd buf old nbytes) := by
  simp only [readWith, h, runRead, fileRead, if_neg (dispatchRead_driver h)]
  refine ⟨rfl, rfl, ?_⟩
  by_cases hret : (fs.readData ((k.pcb slot).fd i).inode ((k.pcb slot).fd i).filePosition
      nbytes).ret = minusOne
  · rw [if_pos hret, if_neg (not_not.mpr hret)]
  · rw [if_neg hret, if_pos hret]
    exact advance_self slot i _

theorem readsDirectory_own {slot : Byte} {i : Fin 8}
    (h : dispatchRead k slot fd buf = .driver i .directory) :
    ReadsDirectory fs ((k.pcb slot).fd i) slot i
      (readWith fs k k slot slot fd buf old nbytes) := by
  simp only [readWith, h, runRead, directoryRead, if_neg (dispatchRead_driver h), ReadsDirectory]
  cases fs.readDentryByIndex ((k.pcb slot).fd i).filePosition with
  | none => exact ⟨rfl, rfl, rfl⟩
  | some d => exact ⟨rfl, rfl, advance_self slot i 1⟩

/-- A `read` moves no position but that of an open file or directory it is dispatched on. -/
theorem readWith_console {slot : Byte} {i : Fin 8}
    (hfile : dispatchRead k slot fd buf ≠ .driver i .file)
    (hdirectory : dispatchRead k slot fd buf ≠ .driver i .directory) :
    ((readWith fs k k slot slot fd buf old nbytes).kernel.pcb slot).fd i = (k.pcb slot).fd i := by
  unfold readWith
  cases h : dispatchRead k slot fd buf with
  | refused | null => rfl
  | driver j op =>
    dsimp only
    by_cases hij : i = j
    · subst hij
      rw [h] at hfile hdirectory
      refine runRead_console_fd ?_ slot i buf old nbytes slot i
      rintro (rfl | rfl)
      · exact hfile rfl
      · exact hdirectory rfl
    · exact runRead_frame slot j op buf old nbytes (Or.inr hij)

/-- Bytes in the program page are in no control block. -/
theorem apart_of_inPage {n : Nat} (h : InPage buf n) {j : Nat} (hj : j < n) (pid : Byte) :
    ¬(pcbAddress pid ≤ buf + BitVec.ofNat 32 j ∧
      buf + BitVec.ofNat 32 j < pcbAddress pid + 0x2000) := by
  have hlow : (0x8000000 : Word) ≤ buf + BitVec.ofNat 32 j := (inPage_iff.mp h j hj).1
  have hkernel : pcbAddress pid + 0x2000 ≤ 0x800000 := by
    unfold pcbAddress
    bv_omega
  rintro ⟨-, hblock⟩
  bv_omega

/-- A call that consults only the executing process's descriptor looks it up there. -/
theorem looksUpItself_of_own {i : Fin 8} (hfd : fdIndex fd = some i) (hi : i ≠ 1) (hbuf : buf ≠ 0)
    (hown : ∀ d ∈ (Syscall.read fs k fd buf old nbytes).touched,
      d.1 = k.executingSlot ∧ fdIndex fd = some d.2) : LooksUpItself k fd := by
  rw [Syscall.read, Syscall.readAnswered, readWith_eq fs k old nbytes hfd hi hbuf] at hown
  -- the descriptor `read` dispatches on is consulted on every path
  have hvis : k.visibleSlot = k.executingSlot := by
    split at hown
    · exact (hown (k.visibleSlot, i) (by simp [CallResult.returns])).1
    · split at hown
      · exact (hown (k.visibleSlot, i) (by simp)).1
      · exact (hown (k.visibleSlot, i) (by simp)).1
  refine ⟨hvis, ?_⟩
  intro j hj hflag hop
  rw [hfd, Option.some.injEq] at hj
  subst hj
  -- and a file or directory driver consults another one
  rw [hvis, if_neg hflag] at hown
  rcases hop with hop | hop <;> rw [hop] at hown <;>
    exact (hown (k.guessedSlot, i) (by simp [runRead_touched hbuf])).1

/-- A call whose lookups find the executing process does what `read` on its own
descriptor does. -/
theorem read_of_looksUpItself {i : Fin 8} (hfd : fdIndex fd = some i) (hi : i ≠ 1) (hbuf : buf ≠ 0)
    (hlooks : LooksUpItself k fd) :
    Syscall.read fs k fd buf old nbytes =
      readWith fs k k k.executingSlot k.executingSlot fd buf old nbytes := by
  obtain ⟨hvis, hguess⟩ := hlooks
  rw [Syscall.read, Syscall.readAnswered, readWith_eq fs k old nbytes hfd hi hbuf,
    readWith_eq fs k old nbytes hfd hi hbuf, hvis]
  split
  · rfl
  · rename_i hflag
    split
    · rfl
    · rename_i op hop
      by_cases hfile : op = .file ∨ op = .directory
      · rw [hguess i hfd hflag (by rw [hop]; simpa using hfile)]
      · rw [runRead_console hfile k.guessedSlot k.executingSlot]

/-- **Descriptor isolation.**  In every state, a `read` of the executing process that stores into
the program page is isolated exactly if its arguments are refused or its lookups find that
process. -/
theorem readIsolated_iff (fs : FileSystem) (k : Kernel) (fd buf : Word) (old : Nat → Byte)
    (nbytes : Word) (hpage : StoresInPage fs k (.read fd buf old nbytes)) :
    ReadIsolated fs k fd buf old nbytes ↔ RefusedByRead fd buf ∨ LooksUpItself k fd := by
  constructor
  · intro h
    by_cases href : RefusedByRead fd buf
    · exact Or.inl href
    · obtain ⟨i, hfd, hi, hbuf⟩ := not_refused href
      exact Or.inr (looksUpItself_of_own hfd hi hbuf h.own)
  · intro h
    have hsame : Syscall.read fs k fd buf old nbytes =
        readWith fs k k k.executingSlot k.executingSlot fd buf old nbytes := by
      by_cases href : RefusedByRead fd buf
      · exact (readWith_refused href _ _).trans (readWith_refused href _ _).symm
      · obtain ⟨i, hfd, hi, hbuf⟩ := not_refused href
        exact read_of_looksUpItself hfd hi hbuf (h.resolve_left href)
    obtain ⟨htouched, hframe⟩ := readWith_own fs k fd buf old nbytes k.executingSlot
    exact {
      own := by rw [hsame]; exact htouched
      result := hsame
      file := fun i hi => by rw [hsame]; exact readsFile_own hi
      directory := fun i hi => by rw [hsame]; exact readsDirectory_own hi
      console := fun i hfile hdirectory => by rw [hsame]; exact readWith_console hfile hdirectory
      frame := by rw [hsame]; exact hframe
      apart := fun j hj => apart_of_inPage hpage hj }

end Isolation

/-- The first shell has opened its own file, and reads from it. -/
theorem readIsolated_openedFile :
    ReadIsolated shellImage (kernelStep shellImage (booted shellImage zeroHardware noJunk
        ⟨0x7FFF00, 0x7FFF40⟩) (.open (some shell))) 2 0x8100000 noJunk 16 ↔
      RefusedByRead 2 0x8100000 ∨ LooksUpItself (kernelStep shellImage (booted shellImage
        zeroHardware noJunk ⟨0x7FFF00, 0x7FFF40⟩) (.open (some shell))) 2 :=
  readIsolated_iff shellImage _ 2 0x8100000 noJunk 16 (by decide +kernel)

/-- The first terminal's shell has opened a file; after a tick the second terminal is opened, and
two more ticks go back to the first. -/
def openedInBackground : List Event :=
  [.open (some shell), .pitTick ⟨0x7FFD00, 0x7FFD40⟩,
    .switchTo 1 noJunk ⟨0x7FFE00, 0x7FFE40⟩ ⟨0x7FFD00, 0x7FFD40⟩,
    .pitTick ⟨0x7FDF00, 0x7FDF40⟩, .pitTick ⟨0x7FDF00, 0x7FDF40⟩]

/-- Its `read` of descriptor 2 looks at the other shell's descriptor. -/
theorem readIsolated_openedInBackground :
    ¬∀ (fs : FileSystem) (h : Hardware) (junk : Nat → Byte) (regs : Regs) (es : List Event)
      (fd buf : Word) (old : Nat → Byte) (nbytes : Word), fs.Executable shell →
        StoresInPage fs ((kernelMachine fs).run (booted fs h junk regs) es)
          (.read fd buf old nbytes) →
        ReadIsolated fs ((kernelMachine fs).run (booted fs h junk regs) es) fd buf old nbytes := by
  intro hall
  have hisolated := hall shellImage zeroHardware noJunk ⟨0x7FFF00, 0x7FFF40⟩ openedInBackground
    2 0x8100000 noJunk 16 shellImage_executable (by decide +kernel)
  have hown := hisolated.own (1, 2) (by decide +kernel)
  revert hown
  decide +kernel

end LinuxLikeOS
