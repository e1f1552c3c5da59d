import LinuxLikeOS.AddressTranslation
import LinuxLikeOS.ExecutableGate

/-! # Where `execute` loads a program

A program is loaded at `LOAD_ADDR`, as many bytes as its inode says.  The page of a process
is 4MB from `PROGRAM_IMG_START` on, so 952 blocks fit behind that address; an inode can hold
1023.  `execute` does not compare the two.  What is behind the page are the pages `vidmap` hands
out: where they are present a program that is too large is loaded into them, and where they are
not `read_data` faults (`executeLoading`).

`loaderConfined_iff` says that for every regular file of a valid image what is loaded is the
file, byte by byte, and that it stays inside the page exactly up to that size.
-/
namespace LinuxLikeOS

/-- The address of byte `i` of what is loaded: `LOAD_ADDR + i`. -/
def loadAddress (i : Nat) : Word := 0x8048000 + BitVec.ofNat 32 i

/-- The index in the page directory of the 4MB page that an address is in. -/
def pageIndex (a : Word) : Nat := a.toNat / 2 ^ 22

/-- A store of the kernel at an address from 128MB on finds a page: the directory's own, or one of
`page_table_video`. -/
def Kernel.storable (k : Kernel) (a : Word) : Bool :=
  let pde := k.pageDirectory (directoryIndex a)
  pde.present && (pde.bigPage || (k.pageTableVideo (tableIndex a)).present)

/-- `execute`, with the page fault of `read_data` where it comes to a page that is not there: the
slot is taken by then and its page mapped, and nothing else is done. -/
@[irreducible]
def executeLoading (fs : FileSystem) (k : Kernel) (command : Option CString) (junk : Nat → Byte)
    (regs : Regs) : Kernel × Control :=
  match execute fs k command junk regs with
  | (k', .launched pid eip image) =>
    if (List.range image.length).all fun i => k'.storable (loadAddress i) then
      (k', .launched pid eip image)
    else ((k.activateExecuting.setProcess pid true).mapPhysicalMemory (pcbIndex pid), .faulted)
  | r => r

/-- The image is the file, and lies inside the page of the process in slot `pid`, the only one
that is touched. -/
structure LoadedInside (fs : FileSystem) (d : Dentry) (k : Kernel) (pid : Fin 6)
    (image : List Byte) : Prop where
  contents : image = fs.fileContents d.inodeNum
  inside : ∀ i < image.length, 0x8000000 ≤ loadAddress i ∧ loadAddress i < 0x8400000
  page : ∀ i < image.length, pageIndex (loadAddress i) = programPde
  mapped : MapsProgram (k.pageDirectory programPde) (8 * 2 ^ 20 + 4 * 2 ^ 20 * pid)

/-- A program is loaded inside its page; or nothing is loaded, -1 is returned (0 while the
kernel is jammed), and no process is created. -/
def LoaderConfined (fs : FileSystem) (d : Dentry) (k : Kernel) : Kernel × Control → Prop
  | (k', .launched pid _ image) => LoadedInside fs d k' pid image
  | (k', .returned v) => (v = minusOne ∨ k.jammed = true) ∧ k'.process = k.process
  | (_, .resumed ..) | (_, .faulted) => False

section Loading
variable {fs : FileSystem} {inode : Word}

/-- A valid file is read as a whole. -/
theorem readData_whole (hfile : fs.ValidFile inode) :
    (fs.readData inode 0 (fs.inodeLength inode)).stored = fs.fileContents inode := by
  have hlength := length_fileContents fs inode
  by_cases hempty : fs.inodeLength inode = 0
  · rw [hempty] at hlength ⊢
    rw [List.eq_nil_of_length_eq_zero hlength, ← List.length_eq_zero_iff,
      FileSystem.length_readData]
    split <;> rfl
  · have hslice : fs.readData inode 0 (fs.inodeLength inode) =
        ⟨fs.inodeLength inode, ((fs.fileContents inode).drop (0 : Word).toNat).take
          (fs.inodeLength inode).toNat⟩ := readData_slice hfile hempty (by simp)
    rw [hslice]
    show ((fs.fileContents inode).drop 0).take _ = _
    rw [List.drop_zero, List.take_of_length_le hlength.le]

/-- The addresses of a file that an inode can hold do not wrap. -/
theorem toNat_loadAddress {i : Nat} (hi : i < 1023 * 4096) :
    (loadAddress i).toNat = 0x8048000 + i := by
  rw [loadAddress, BitVec.toNat_add, BitVec.toNat_ofNat]
  show (0x8048000 + i % 2 ^ 32) % 2 ^ 32 = _
  omega

theorem inside_iff {i : Nat} (hi : i < 1023 * 4096) :
    (0x8000000 ≤ loadAddress i ∧ loadAddress i < 0x8400000) ↔ i < 0x3B8000 := by
  have hnat := toNat_loadAddress hi
  rw [BitVec.le_def, BitVec.lt_def, hnat]
  show (0x8000000 ≤ _ ∧ _ < 0x8400000) ↔ _
  omega

theorem pageIndex_loadAddress {i : Nat} (hi : i < 0x3B8000) :
    pageIndex (loadAddress i) = programPde := by
  rw [pageIndex, toNat_loadAddress (by omega)]
  show (0x8048000 + i) / 2 ^ 22 = 32
  omega

theorem directoryIndex_loadAddress {i : Nat} (hi : i < 0x3B8000) :
    directoryIndex (loadAddress i) = programPde := by
  apply Fin.ext
  rw [directoryIndex_val, toNat_loadAddress (by omega)]
  show (0x8048000 + i) / 4194304 = 32
  omega

theorem page_of_launch (k : Kernel) (pid : Fin 6) (arg : CString) (regs : Regs) :
    (k.launched pid arg regs).pageDirectory programPde = programPage (View.slotOf pid) :=
  congrArg Scene.page (scene_launched (k := k) pid arg regs)

/-- The page of the process that is launched is there to be loaded into. -/
theorem storable_launched (k : Kernel) (pid : Fin 6) (arg : CString) (regs : Regs) {i : Nat}
    (hi : i < 0x3B8000) : (k.launched pid arg regs).storable (loadAddress i) = true := by
  rw [Kernel.storable, directoryIndex_loadAddress hi, page_of_launch]
  rfl

/-- **A valid file** of a process that is launched is loaded inside its page exactly if it
is small enough. -/
theorem loadedInside_iff {d : Dentry} (hfile : fs.ValidFile d.inodeNum) (k : Kernel) (pid : Fin 6)
    (arg : CString) (regs : Regs) :
    LoadedInside fs d (k.launched pid arg regs) pid
        (fs.readData d.inodeNum 0 (fs.inodeLength d.inodeNum)).stored ↔
      (fs.inodeLength d.inodeNum).toNat ≤ 0x3B8000 := by
  have hlength := length_fileContents fs d.inodeNum
  have hmax := hfile.length_le
  rw [readData_whole hfile]
  constructor
  · intro h
    by_contra hlarge
    -- the first byte behind the page
    have hlast := (h.inside 0x3B8000 (by omega)).2
    exact absurd hlast (by decide)
  · intro hsmall
    refine ⟨rfl, fun i hi => (inside_iff (by omega)).mpr (by omega),
      fun i hi => pageIndex_loadAddress (by omega), ?_⟩
    rw [page_of_launch]
    exact programPage_mapsProgram pid

end Loading

/-- **Loader confinement.**  For every regular file of a valid image, of any size that an inode
can hold: `execute` loads it inside the page of its process, byte by byte, or creates no
process, exactly if it is refused or has at most 952 blocks. -/
theorem loaderConfined_iff {fs : FileSystem} (himage : fs.ValidImage) {command : Option CString}
    {d : Dentry} (hnamed : NamesFile fs command d) (hregular : d.filetype = 2) (k : Kernel)
    (junk : Nat → Byte) (regs : Regs) :
    LoaderConfined fs d k (executeLoading fs k command junk regs) ↔
      (Admits fs k command junk d → (fs.inodeLength d.inodeNum).toNat ≤ 952 * 4096) := by
  have hfile := hnamed.validFile himage hregular
  unfold executeLoading
  rcases execute_admitted fs k command junk regs with
    ⟨d', pid, arg, hadmits, heq⟩ | ⟨hnone, k', v, heq, hv, hprocess⟩
  · obtain rfl := hnamed.unique hadmits.named
    rw [heq, imp_iff_right hadmits]
    dsimp only
    split
    · exact loadedInside_iff hfile k pid arg regs
    · rename_i hfault
      -- a file that fits does not leave the page
      refine iff_of_false id fun hsmall => hfault (List.all_eq_true.mpr fun i hi => ?_)
      rw [List.mem_range, readData_whole hfile, length_fileContents] at hi
      exact storable_launched k pid arg regs (Nat.lt_of_lt_of_le hi hsmall)
  · rw [heq]
    exact iff_of_true ⟨hv, hprocess⟩ fun h => absurd h (hnone d)

theorem loaderConfined_shell :
    LoaderConfined shellImage ⟨shell, 2, 0⟩ (initialised zeroHardware) (executeLoading shellImage
        (initialised zeroHardware) (some shell) noJunk ⟨0x7FFF00, 0x7FFF40⟩) ↔
      (Admits shellImage (initialised zeroHardware) (some shell) noJunk ⟨shell, 2, 0⟩ →
        (shellImage.inodeLength 0).toNat ≤ 952 * 4096) :=
  loaderConfined_iff shellImage_valid ⟨shell, rfl, by decide, by decide +kernel⟩ rfl _ _ _

/-- A shell, and a program of 953 blocks that are all the same. -/
def largeImage : FileSystem where
  bootBlock := 0x420000
  mem := fun a =>
    match (a - 0x420000).toNat with
    | 0 | 4 => 2
    | 8 => 1
    | 64 => 0x73
    | 65 => 0x68
    | 66 => 0x65
    | 67 | 68 => 0x6C
    | 96 => 2
    | 128 => 0x6C
    | 129 => 0x61
    | 130 => 0x72
    | 131 => 0x67
    | 132 => 0x65
    | 160 => 2
    | 164 => 1
    | 4096 => 28
    | 8193 => 0x90
    | 8194 => 0x3B
    | 12288 => 0x7F
    | 12289 => 0x45
    | 12290 => 0x4C
    | 12291 => 0x46
    | 12313 => 0x80
    | 12314 => 0x04
    | 12315 => 0x08
    | _ => 0

/-- `"large"`. -/
def large : CString := ⟨ascii "large".toList, by decide⟩

/-- Behind the length, the inode of the large program is zero. -/
theorem largeImage_mem {a : Word} (hlow : 0x422004 ≤ a) (hhigh : a < 0x423000) :
    largeImage.mem a = 0 := by
  have hoffset : 8196 ≤ (a - 0x420000).toNat ∧ (a - 0x420000).toNat < 12288 := by bv_omega
  rw [largeImage]
  dsimp only
  generalize (a - 0x420000).toNat = offset at hoffset
  split <;> first | rfl | omega

theorem largeImage_block {n : Nat} (hn : n < 1023) : largeImage.badBlock 1 n = false := by
  have hbyte : ∀ j : Word, j < 4 → largeImage.mem (0x422004 + BitVec.ofNat 32 (4 * n) + j) = 0 :=
    fun j hj => largeImage_mem (by bv_omega) (by bv_omega)
  have hfirst : largeImage.mem (0x422004 + BitVec.ofNat 32 (4 * n)) = 0 :=
    largeImage_mem (by bv_omega) (by bv_omega)
  have haddress : largeImage.inodeBlockStart + 1 * 4096 + 4 = 0x422004 := rfl
  rw [FileSystem.badBlock, FileSystem.dataBlockNum, haddress, loadWord, hfirst,
    hbyte 1 (by decide), hbyte 2 (by decide), hbyte 3 (by decide)]
  decide +kernel

theorem largeImage_valid : largeImage.ValidImage := by
  have hshell : (largeImage.inodeLength 0).toNat = 28 := by decide +kernel
  have hlarge : (largeImage.inodeLength 1).toNat = 953 * 4096 := by decide +kernel
  have hfiles : ∀ i : Fin 2, largeImage.ValidFile (BitVec.ofNat 32 i) := by
    intro i
    fin_cases i
    · refine ⟨by decide +kernel, by decide +kernel, fun n hn => ?_⟩
      obtain rfl : n = 0 := by
        have hn' : n * 4096 < (largeImage.inodeLength 0).toNat := hn
        omega
      decide +kernel
    · refine ⟨by decide +kernel, by decide +kernel, fun n hn => largeImage_block ?_⟩
      have hn' : n * 4096 < (largeImage.inodeLength 1).toNat := hn
      omega
  have hcount : largeImage.dirCount.toNat = 2 := by decide +kernel
  have hinodes : ∀ j : Fin 2,
      (largeImage.dentryAt (largeImage.direntry j)).inodeNum = BitVec.ofNat 32 j := by
    decide +kernel
  have hdistinct : ∀ i j : Fin 2, largeImage.nameAt (largeImage.direntry i) =
      largeImage.nameAt (largeImage.direntry j) → i = j := by decide +kernel
  refine ⟨⟨by decide +kernel, by decide +kernel, by decide +kernel, fun i j hi hj hname => ?_⟩,
    fun j hj _ => ?_⟩
  · rw [hcount] at hi hj
    exact congrArg Fin.val (hdistinct ⟨i, hi⟩ ⟨j, hj⟩ hname)
  · rw [hcount] at hj
    exact (hinodes ⟨j, hj⟩).symm ▸ hfiles ⟨j, hj⟩

/-- The first shell of that image has called `vidmap`. -/
def mappedShell : Kernel :=
  (kernelMachine largeImage).run (booted largeImage zeroHardware noJunk ⟨0x7FFF00, 0x7FFF40⟩)
    [.vidmap 0x8100000]

theorem mappedShell_admits : Admits largeImage mappedShell (some large) noJunk ⟨large, 2, 1⟩ :=
  ⟨by decide +kernel, ⟨large, rfl, by decide, by decide +kernel⟩, by decide +kernel,
    by decide +kernel, by decide +kernel⟩

theorem length_largeProgram :
    (largeImage.readData 1 0 (largeImage.inodeLength 1)).stored.length = 953 * 4096 := by
  have hfile : largeImage.ValidFile 1 := mappedShell_admits.named.validFile largeImage_valid rfl
  rw [readData_whole hfile, length_fileContents]
  decide +kernel

/-- The pages behind the program page are where they were, for the process that is launched. -/
theorem storable_behind {k : Kernel} (hdirectory : (k.pageDirectory videoPde).present = true)
    (htable : (k.pageTableVideo (videoEntry 0)).present = true) (pid : Fin 6) (arg : CString)
    (regs : Regs) {i : Nat} (hlow : 0x3B8000 ≤ i) (hhigh : i < 0x3B9000) :
    (k.launched pid arg regs).storable (loadAddress i) = true := by
  have haddress : (loadAddress i).toNat = 0x8048000 + i := toNat_loadAddress (by omega)
  have hindex : directoryIndex (loadAddress i) = videoPde := by
    apply Fin.ext
    rw [directoryIndex_val, haddress]
    show (0x8048000 + i) / 4194304 = 33
    omega
  have hentry : tableIndex (loadAddress i) = videoEntry 0 := by
    apply Fin.ext
    rw [tableIndex_val, haddress]
    show (0x8048000 + i) / 4096 % 1024 = 0
    omega
  have hother : (k.launched pid arg regs).pageDirectory videoPde = k.pageDirectory videoPde := rfl
  have hsame : (k.launched pid arg regs).pageTableVideo = k.pageTableVideo := rfl
  rw [Kernel.storable, hindex, hentry, hother, hsame, hdirectory, htable]
  exact Bool.or_true _

/-- The large program is launched: its last block is loaded into the page that `vidmap` has made
present, which is the screen. -/
theorem mappedShell_launches : ∃ k' pid eip, executeLoading largeImage mappedShell (some large)
    noJunk ⟨0x7FFE00, 0x7FFE40⟩ =
      (k', .launched pid eip (largeImage.readData 1 0 (largeImage.inodeLength 1)).stored) := by
  obtain ⟨pid, arg, heq⟩ := execute_of_admits mappedShell_admits ⟨0x7FFE00, 0x7FFE40⟩
  refine ⟨mappedShell.launched pid arg ⟨0x7FFE00, 0x7FFE40⟩, pid, entryPoint largeImage 1 noJunk,
    ?_⟩
  rw [executeLoading, heq]
  refine if_pos (List.all_eq_true.mpr fun i hi => ?_)
  have hlength : i < 953 * 4096 := by
    rw [← length_largeProgram]
    exact List.mem_range.mp hi
  by_cases hsmall : i < 0x3B8000
  · exact storable_launched mappedShell pid arg _ hsmall
  · exact storable_behind (by decide +kernel) (by decide +kernel) pid arg _ (by omega) (by omega)

/-- It is an executable, and its last block is loaded behind the page. -/
theorem unconfined_largeProgram :
    ¬∀ (fs : FileSystem) (command : Option CString) (d : Dentry) (h : Hardware)
      (junk : Nat → Byte) (regs : Regs) (es : List Event) (junk' : Nat → Byte) (regs' : Regs),
      fs.ValidImage → NamesFile fs command d → d.filetype = 2 →
        (fs.readData d.inodeNum 0 4).stored = [0x7F, 0x45, 0x4C, 0x46] →
          LoaderConfined fs d ((kernelMachine fs).run (booted fs h junk regs) es)
            (executeLoading fs ((kernelMachine fs).run (booted fs h junk regs) es) command junk'
              regs') := by
  intro hall
  have hmagic : (largeImage.readData 1 0 4).stored = [0x7F, 0x45, 0x4C, 0x46] := by decide +kernel
  have hconfined : LoaderConfined largeImage ⟨large, 2, 1⟩ mappedShell (executeLoading largeImage
      mappedShell (some large) noJunk ⟨0x7FFE00, 0x7FFE40⟩) :=
    hall largeImage (some large) ⟨large, 2, 1⟩ zeroHardware noJunk ⟨0x7FFF00, 0x7FFF40⟩
      [.vidmap 0x8100000] noJunk ⟨0x7FFE00, 0x7FFE40⟩ largeImage_valid mappedShell_admits.named rfl
      hmagic
  obtain ⟨k', pid, eip, heq⟩ := mappedShell_launches
  rw [heq] at hconfined
  have hloaded : LoadedInside largeImage ⟨large, 2, 1⟩ k' pid
      (largeImage.readData 1 0 (largeImage.inodeLength 1)).stored := hconfined
  have hbehind := (hloaded.inside 0x3B8000 (by rw [length_largeProgram]; decide)).2
  exact absurd hbehind (by decide)

end LinuxLikeOS
