import LinuxLikeOS.DirectoryReads
import LinuxLikeOS.EndOfFile

/-! # What `execute` lets through

`execute` runs a file whose first bytes are the magic number, from the address in its bytes
24 to 27.  It reads both into arrays that it has not initialised, and does not look at how
much `read_data` has stored, nor at the type of the directory entry.

`execute_admitted` says when a command is launched, and with what.  So the entry is a regular
file with this header, and the address its own, exactly if what is launched is a regular file
and long enough to have the header (`executableGate_iff`).
-/
namespace LinuxLikeOS
open CountedLoop

/-- A valid directory, whose regular files are valid. -/
structure FileSystem.ValidImage (fs : FileSystem) : Prop extends fs.ValidDirectory where
  files : ∀ j, j < fs.dirCount.toNat → (fs.dentryAt (fs.direntry j)).filetype = 2 →
    fs.ValidFile (fs.dentryAt (fs.direntry j)).inodeNum

/-- `d` is the entry that the command names. -/
def NamesFile (fs : FileSystem) (command : Option CString) (d : Dentry) : Prop :=
  ∃ c, command = some c ∧ c.strlen ≤ 128 ∧ fs.readDentryByName (parseCommand c).1 = some d

/-- `execute` is not jammed, the command names `d`, the magic number is found in what
`check_exe` then holds, and there is room for a process. -/
structure Admits (fs : FileSystem) (k : Kernel) (command : Option CString) (junk : Nat → Byte)
    (d : Dentry) : Prop where
  jammed : k.jammed = false
  named : NamesFile fs command d
  magic : isElf (overlay (fs.readData d.inodeNum 0 4).stored junk) = true
  room : k.activateExecuting.tooManyProcesses = false
  free : k.firstFree ≠ none

section Admitted
variable {fs : FileSystem} {k : Kernel} {command : Option CString} {junk : Nat → Byte}
  {d d' : Dentry}

theorem NamesFile.unique (h : NamesFile fs command d) (h' : NamesFile fs command d') : d' = d := by
  obtain ⟨c, rfl, _, hfind⟩ := h
  obtain ⟨c', hc, _, hfind'⟩ := h'
  rw [← Option.some.inj hc, hfind] at hfind'
  exact (Option.some.inj hfind').symm

/-- The entry that is found is one of the directory. -/
theorem findDentry_mem {fname : CString} {n i : Nat} (h : fs.findDentry fname n i = some d) :
    ∃ j, i ≤ j ∧ j < i + n ∧ d = fs.dentryAt (fs.direntry j) := by
  induction n generalizing i with
  | zero => cases h
  | succ n ih =>
    rw [FileSystem.findDentry] at h
    split at h
    · exact ⟨i, Nat.le_refl i, by omega, (Option.some.inj h).symm⟩
    · obtain ⟨j, hlow, hhigh, hd⟩ := ih h
      exact ⟨j, by omega, by omega, hd⟩

/-- A regular file that is named is valid. -/
theorem NamesFile.validFile (h : NamesFile fs command d) (himage : fs.ValidImage)
    (hregular : d.filetype = 2) : fs.ValidFile d.inodeNum := by
  obtain ⟨c, _, _, hfind⟩ := h
  obtain ⟨j, _, hj, rfl⟩ := findDentry_mem hfind
  have hcount := himage.count
  have hcond := BitVec.toInt_eq_toNat_cond fs.dirCount
  refine himage.files j ?_ hregular
  split at hcond <;> omega

/-- The checks of `execute` from the file on. -/
theorem executeFile_checks (fs : FileSystem) (k : Kernel) (d : Dentry) (arg : CString)
    (junk : Nat → Byte) (regs : Regs) :
    (isElf (overlay (fs.readData d.inodeNum 0 4).stored junk) = true ∧ k.tooManyProcesses = false ∧
      ∃ pid, k.firstFree = some pid ∧ executeFile fs k d arg junk regs =
        ((k.setProcess (pid : Int) true).launch pid arg regs,
          .launched pid (entryPoint fs d.inodeNum junk)
            (fs.readData d.inodeNum 0 (fs.inodeLength d.inodeNum)).stored)) ∨
    (¬(isElf (overlay (fs.readData d.inodeNum 0 4).stored junk) = true ∧
        k.tooManyProcesses = false ∧ k.firstFree ≠ none) ∧
      ∃ k', k'.offScreen = k.offScreen ∧
        executeFile fs k d arg junk regs = (k', .returned minusOne)) := by
  unfold executeFile
  by_cases hmagic : isElf (overlay (fs.readData d.inodeNum 0 4).stored junk) = true
  · rw [if_pos hmagic]
    by_cases hroom : k.tooManyProcesses = true
    · rw [if_pos hroom]
      refine Or.inr ⟨fun h => ?_, _, puts_offScreen k _, rfl⟩
      exact absurd (hroom.symm.trans h.2.1) (by decide)
    · rw [if_neg hroom]
      cases hpid : k.getPid with
      | none =>
        have hnone : k.firstFree = none := Option.map_eq_none_iff.mp hpid
        exact Or.inr ⟨fun h => h.2.2 hnone, _, puts_offScreen k _, rfl⟩
      | some p =>
        obtain ⟨pid, k'⟩ := p
        obtain ⟨hfree, rfl⟩ := getPid_eq_some.mp hpid
        exact Or.inl ⟨hmagic, by simpa using hroom, pid, hfree, rfl⟩
  · rw [if_neg hmagic]
    exact Or.inr ⟨fun h => hmagic h.1, _, puts_offScreen k _, rfl⟩

/-- **When `execute` launches**: the named file goes through the checks, and it is
launched from the slot that is free; or no file does, and no process is created. -/
theorem execute_admitted (fs : FileSystem) (k : Kernel) (command : Option CString)
    (junk : Nat → Byte) (regs : Regs) :
    (∃ d pid arg, Admits fs k command junk d ∧
      execute fs k command junk regs =
        (k.launched pid arg regs, .launched pid (entryPoint fs d.inodeNum junk)
          (fs.readData d.inodeNum 0 (fs.inodeLength d.inodeNum)).stored)) ∨
    ((∀ d, ¬Admits fs k command junk d) ∧
      ∃ k' v, execute fs k command junk regs = (k', .returned v) ∧
      (v = minusOne ∨ k.jammed = true) ∧ k'.process = k.process) := by
  unfold execute
  cases hjam : k.jammed with
  | true =>
    exact Or.inr ⟨fun d h => absurd (hjam.symm.trans h.jammed) (by decide), k, 0, rfl,
      Or.inr rfl, rfl⟩
  | false =>
    simp only [Bool.false_eq_true, if_false]
    cases command with
    | none =>
      refine Or.inr ⟨fun d h => ?_, k, minusOne, rfl, Or.inl rfl, rfl⟩
      obtain ⟨c, hc, _⟩ := h.named
      exact nomatch hc
    | some command =>
      by_cases hlong : command.strlen > 128
      · refine Or.inr ⟨fun d h => ?_, k, minusOne, by simp [hlong], Or.inl rfl, rfl⟩
        obtain ⟨c, hc, hlen, _⟩ := h.named
        obtain rfl := Option.some.inj hc
        omega
      · simp only [hlong, if_false]
        cases hfind : fs.readDentryByName (parseCommand command).1 with
        | none =>
          refine Or.inr ⟨fun d h => ?_, _, minusOne, rfl, Or.inl rfl, rfl⟩
          obtain ⟨c, hc, _, hsome⟩ := h.named
          rw [← Option.some.inj hc, hfind] at hsome
          exact nomatch hsome
        | some d =>
          have hnamed : NamesFile fs (some command) d := ⟨command, rfl, by omega, hfind⟩
          have hfree : k.activateExecuting.firstFree = k.firstFree := rfl
          rcases executeFile_checks fs k.activateExecuting d (parseCommand command).2 junk regs with
            ⟨hmagic, hroom, pid, hpid, heq⟩ | ⟨hfails, k', hoff, heq⟩
          · refine Or.inl ⟨d, pid, _, ⟨hjam, hnamed, hmagic, hroom, ?_⟩, heq⟩
            rw [← hfree, hpid]
            exact Option.some_ne_none pid
          · refine Or.inr ⟨fun d' h => hfails ?_, k', minusOne, heq, Or.inl rfl, ?_⟩
            · have hmagic := h.magic
              rw [hnamed.unique h.named] at hmagic
              exact ⟨hmagic, h.room, h.free⟩
            · have hprocess := congrArg Kernel.process hoff
              exact hprocess

/-- What gets through the checks is launched. -/
theorem execute_of_admits (h : Admits fs k command junk d) (regs : Regs) :
    ∃ pid arg, execute fs k command junk regs =
      (k.launched pid arg regs, .launched pid (entryPoint fs d.inodeNum junk)
        (fs.readData d.inodeNum 0 (fs.inodeLength d.inodeNum)).stored) := by
  rcases execute_admitted fs k command junk regs with ⟨d', pid, arg, h', heq⟩ | ⟨hnone, -⟩
  · obtain rfl := h.named.unique h'.named
    exact ⟨pid, arg, heq⟩
  · exact absurd h (hnone d)

end Admitted

/-! ## The header -/

/-- The entry is a regular file whose first bytes are the magic number, and `eip` is in its
own bytes 24 to 27. -/
structure FileSystem.RunsFrom (fs : FileSystem) (d : Dentry) (eip : Word) : Prop where
  regular : d.filetype = 2
  magic : (fs.fileContents d.inodeNum).take 4 = [0x7F, 0x45, 0x4C, 0x46]
  entry : ∃ b₀ b₁ b₂ b₃, ((fs.fileContents d.inodeNum).drop 24).take 4 = [b₀, b₁, b₂, b₃] ∧
    eip = b₃ ++ b₂ ++ b₁ ++ b₀

/-- What `execute` launches is the named file, and it runs from there. -/
def ExecutableGate (fs : FileSystem) (k : Kernel) (command : Option CString) (junk : Nat → Byte)
    (regs : Regs) : Prop :=
  ∀ k' pid eip image, execute fs k command junk regs = (k', .launched pid eip image) →
    ∃ d, NamesFile fs command d ∧ fs.RunsFrom d eip

section Header
variable {fs : FileSystem} {inode : Word} {junk : Nat → Byte}

/-- What is read of a valid file that is long enough. -/
theorem header_eq (hfile : fs.ValidFile inode) {p : Nat} (hp : p < 4096)
    (hlen : p + 4 ≤ (fs.inodeLength inode).toNat) :
    (fs.readData inode (BitVec.ofNat 32 p) 4).stored = ((fs.fileContents inode).drop p).take 4 ∧
      ∃ b₀ b₁ b₂ b₃, ((fs.fileContents inode).drop p).take 4 = [b₀, b₁, b₂, b₃] := by
  have hoffset : (BitVec.ofNat 32 p).toNat = p := by
    rw [BitVec.toNat_ofNat]
    omega
  have hslice : fs.readData inode (BitVec.ofNat 32 p) 4 =
      ⟨4, ((fs.fileContents inode).drop (BitVec.ofNat 32 p).toNat).take (4 : Word).toNat⟩ :=
    readData_slice hfile (by decide) (by rw [hoffset]; exact hlen)
  rw [hoffset] at hslice
  refine ⟨congrArg ReadData.stored hslice, ?_⟩
  have hfour : (((fs.fileContents inode).drop p).take 4).length = 4 := by
    rw [List.length_take, List.length_drop, length_fileContents]
    omega
  match hbytes : ((fs.fileContents inode).drop p).take 4, hfour with
  | [b₀, b₁, b₂, b₃], _ => exact ⟨b₀, b₁, b₂, b₃, rfl⟩

theorem isElf_iff {b₀ b₁ b₂ b₃ : Byte} :
    isElf (overlay [b₀, b₁, b₂, b₃] junk) = true ↔
      [b₀, b₁, b₂, b₃] = [0x7F, 0x45, 0x4C, 0x46] := by
  simp [isElf, overlay, and_assoc]

/-- A regular file that is long enough runs from its own header. -/
theorem runsFrom_of_long {d : Dentry} (hfile : fs.ValidFile d.inodeNum) (hregular : d.filetype = 2)
    (hlen : 28 ≤ (fs.inodeLength d.inodeNum).toNat)
    (hmagic : isElf (overlay (fs.readData d.inodeNum 0 4).stored junk) = true) :
    fs.RunsFrom d (entryPoint fs d.inodeNum junk) := by
  obtain ⟨hhead, b₀, b₁, b₂, b₃, hfirst⟩ := header_eq hfile (p := 0) (by decide) (by omega)
  obtain ⟨hentry, c₀, c₁, c₂, c₃, hword⟩ := header_eq hfile (p := 24) (by decide) (by omega)
  have hhead' : (fs.readData d.inodeNum 0 4).stored = [b₀, b₁, b₂, b₃] := hhead.trans hfirst
  have hentry' : (fs.readData d.inodeNum 24 4).stored = [c₀, c₁, c₂, c₃] := hentry.trans hword
  rw [hhead', isElf_iff] at hmagic
  refine ⟨hregular, ?_, c₀, c₁, c₂, c₃, hword, ?_⟩
  · rw [List.drop_zero] at hfirst
    exact hfirst.trans hmagic
  · rw [entryPoint, hentry']
    rfl

end Header

/-- **The executable gate**: whatever the arrays held before, what is launched is a regular file
with its own header exactly if the file that gets through the checks is a regular one of at
least 28 bytes. -/
theorem executableGate_iff {fs : FileSystem} (himage : fs.ValidImage) (k : Kernel)
    (command : Option CString) (junk : Nat → Byte) (regs : Regs) :
    ExecutableGate fs k command junk regs ↔
      ∀ d, Admits fs k command junk d →
        d.filetype = 2 ∧ 28 ≤ (fs.inodeLength d.inodeNum).toNat := by
  rcases execute_admitted fs k command junk regs with
    ⟨d, pid, arg, hadmits, heq⟩ | ⟨hnone, k', v, heq, -⟩
  · have hnamed := hadmits.named
    constructor
    · intro hgate d' hadmits'
      obtain ⟨d₁, hnamed₁, hruns⟩ := hgate _ _ _ _ heq
      obtain rfl := hadmits'.named.unique hnamed₁
      refine ⟨hruns.regular, ?_⟩
      -- bytes 24 to 27 are there
      obtain ⟨b₀, b₁, b₂, b₃, hbytes, -⟩ := hruns.entry
      have hlength := congrArg List.length hbytes
      rw [List.length_take, List.length_drop, length_fileContents] at hlength
      have hfour : [b₀, b₁, b₂, b₃].length = 4 := rfl
      omega
    · intro hlong k' pid' eip image hlaunch
      rw [heq, Prod.mk.injEq, Control.launched.injEq] at hlaunch
      obtain ⟨hregular, hlen⟩ := hlong d hadmits
      rw [← hlaunch.2.2.1]
      exact ⟨d, hnamed,
        runsFrom_of_long (hnamed.validFile himage hregular) hregular hlen hadmits.magic⟩
  · refine iff_of_true (fun k₁ pid eip image hlaunch => ?_) fun d h => absurd h (hnone d)
    rw [heq] at hlaunch
    exact nomatch (Prod.mk.inj hlaunch).2

theorem validImage_of_one {fs : FileSystem} (hcount : fs.dirCount = 1)
    (hentry : (fs.dentryAt (fs.direntry 0)).filetype = 2)
    (hname : (fs.nameAt (fs.direntry 0)).bytes ≠ [])
    (hfile : fs.ValidFile (fs.dentryAt (fs.direntry 0)).inodeNum) : fs.ValidImage := by
  have hzero : ∀ {j}, j < fs.dirCount.toNat → j = 0 := by
    intro j hj
    rw [hcount] at hj
    exact Nat.lt_one_iff.mp hj
  refine ⟨⟨by rw [hcount]; decide, fun j hj => ?_, fun j hj => ?_, fun i j hi hj _ => ?_⟩,
    fun j hj _ => ?_⟩
  · rw [hzero hj, hentry]
    decide
  · rw [hzero hj]
    exact hname
  · rw [hzero hi, hzero hj]
  · rw [hzero hj]
    exact hfile

theorem shellImage_valid : shellImage.ValidImage := by
  refine validImage_of_one (by decide +kernel) (by decide +kernel) (by decide +kernel)
    ⟨by decide +kernel, by decide +kernel, fun n hn => ?_⟩
  have hlength :
      (shellImage.inodeLength (shellImage.dentryAt (shellImage.direntry 0)).inodeNum).toNat
      = 28 := by decide +kernel
  obtain rfl : n = 0 := by omega
  decide +kernel

theorem executableGate_shell :
    ExecutableGate shellImage (initialised zeroHardware) (some shell) noJunk ⟨0x7FFF00, 0x7FFF40⟩ ↔
      ∀ d, Admits shellImage (initialised zeroHardware) (some shell) noJunk d →
        d.filetype = 2 ∧ 28 ≤ (shellImage.inodeLength d.inodeNum).toNat :=
  executableGate_iff shellImage_valid _ _ _ _

/-- A shell of four bytes, the magic number. -/
def shortImage : FileSystem where
  bootBlock := 0x420000
  mem := fun a => if a = 0x421000 then 4 else shellImage.mem a

theorem shortImage_valid : shortImage.ValidImage := by
  refine validImage_of_one (by decide +kernel) (by decide +kernel) (by decide +kernel)
    ⟨by decide +kernel, by decide +kernel, fun n hn => ?_⟩
  have hlength :
      (shortImage.inodeLength (shortImage.dentryAt (shortImage.direntry 0)).inodeNum).toNat
      = 4 := by decide +kernel
  obtain rfl : n = 0 := by omega
  decide +kernel

/-- It is launched, and starts where the four bytes at offset 24 of its block say, which are no part
of it. -/
theorem ungated_shortShell :
    ¬∀ (fs : FileSystem) (k : Kernel) (command : Option CString) (junk : Nat → Byte) (regs : Regs),
      fs.ValidImage → ExecutableGate fs k command junk regs := by
  intro hall
  have hgate := hall shortImage (initialised zeroHardware) (some shell) noJunk
    ⟨0x7FFF00, 0x7FFF40⟩ shortImage_valid
  have hnamed : NamesFile shortImage (some shell) ⟨shell, 2, 0⟩ :=
    ⟨shell, rfl, by decide, by decide +kernel⟩
  have hadmits : Admits shortImage (initialised zeroHardware) (some shell) noJunk ⟨shell, 2, 0⟩ :=
    ⟨by decide +kernel, hnamed, by decide +kernel, by decide +kernel, by decide +kernel⟩
  obtain ⟨pid, arg, heq⟩ := execute_of_admits hadmits ⟨0x7FFF00, 0x7FFF40⟩
  obtain ⟨d, hnamed', hruns⟩ := hgate _ _ _ _ heq
  obtain ⟨b₀, b₁, b₂, b₃, hbytes, -⟩ := hruns.entry
  rw [hnamed.unique hnamed'] at hbytes
  -- the file ends before byte 24
  have hempty : ((shortImage.fileContents 0).drop 24).take 4 = [] := by decide +kernel
  rw [hempty] at hbytes
  exact nomatch hbytes

end LinuxLikeOS
