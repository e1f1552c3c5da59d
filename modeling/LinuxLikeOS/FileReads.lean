import LinuxLikeOS.DescriptorIsolation

/-! # Reading a file in chunks

A file is its blocks, one after another in the order of the inode's table, cut at its length
(`fileContents`).  `read_data` does not see it that way: it divides each offset into a block
number and an index in the block, and carries from one to the other.  A read that ends
inside the file returns the slice of the file that was asked for (`readData_slice`), so
the position in the descriptor is all that one `file_read` leaves to the next, and the chunks
of a file are the file, however it is cut.
-/
namespace LinuxLikeOS
open CountedLoop

/-! ## Files as lists of bytes -/

namespace FileSystem
variable (fs : FileSystem)

/-- The bytes of block `n` of an inode. -/
def blockBytes (inode : Word) (n : Nat) : List Byte :=
  (List.range 4096).map fun index => fs.dataByte inode n index

/-- The bytes of a file: the blocks that cover its length, in table order, cut there. -/
def fileContents (inode : Word) : List Byte :=
  let length := (fs.inodeLength inode).toNat
  ((List.range ((length + 4095) / 4096)).flatMap (fs.blockBytes inode)).take length

/-- The inode's number is in range, its length fits in its table, and the numbers of the
blocks that cover the file are below `data_count`. -/
structure ValidFile (inode : Word) : Prop where
  inTable : inode < fs.inodeCount
  length_le : (fs.inodeLength inode).toNat ≤ 1023 * 4096
  covered : ∀ n, n * 4096 < (fs.inodeLength inode).toNat → fs.badBlock inode n = false

end FileSystem

section Slices

/-- Blocks of equal size, one after another, hold at each position the entry of its quotient
and remainder. -/
theorem flatMap_blocks {α : Type} (f : Nat → Nat → α) {size : Nat} (hsize : 0 < size) (n : Nat) :
    ((List.range n).flatMap fun q => (List.range size).map (f q)) =
      (List.range (n * size)).map fun p => f (p / size) (p % size) := by
  induction n with
  | zero => simp
  | succ n ih =>
    have hlast : ∀ r ∈ List.range size,
        f n r = f ((n * size + r) / size) ((n * size + r) % size) := by
      intro r hr
      have hlt := List.mem_range.mp hr
      rw [Nat.mul_comm n size, Nat.mul_add_div hsize, Nat.div_eq_of_lt hlt, Nat.mul_add_mod,
        Nat.mod_eq_of_lt hlt, Nat.add_zero]
    rw [List.range_succ, List.flatMap_append, ih, Nat.succ_mul, List.range_add, List.map_append,
      List.map_map]
    simp only [List.flatMap_cons, List.flatMap_nil, List.append_nil, Function.comp_def]
    rw [List.map_congr_left hlast]

variable {fs : FileSystem} {inode : Word}

/-- The byte of a file at each position. -/
theorem fileContents_eq (fs : FileSystem) (inode : Word) :
    fs.fileContents inode =
      (List.range (fs.inodeLength inode).toNat).map fun p =>
        fs.dataByte inode (p / 4096) (p % 4096) := by
  have hblocks : ((List.range (((fs.inodeLength inode).toNat + 4095) / 4096)).flatMap
      (fs.blockBytes inode)) =
      (List.range (((fs.inodeLength inode).toNat + 4095) / 4096 * 4096)).map fun p =>
        fs.dataByte inode (p / 4096) (p % 4096) :=
    flatMap_blocks (fs.dataByte inode) (by decide) _
  have hcover : (fs.inodeLength inode).toNat ≤
      ((fs.inodeLength inode).toNat + 4095) / 4096 * 4096 := by omega
  rw [FileSystem.fileContents, hblocks, ← List.map_take, List.take_range, Nat.min_eq_left hcover]

theorem length_fileContents (fs : FileSystem) (inode : Word) :
    (fs.fileContents inode).length = (fs.inodeLength inode).toNat := by
  rw [fileContents_eq, List.length_map, List.length_range]

/-- The slice of a file of `n` bytes from position `p` on. -/
theorem fileContents_slice {p n : Nat} (h : p + n ≤ (fs.inodeLength inode).toNat) :
    ((fs.fileContents inode).drop p).take n =
      (List.range n).map fun j => fs.dataByte inode ((p + j) / 4096) ((p + j) % 4096) := by
  refine List.ext_getElem ?_ fun j hj hj' => ?_
  · simp [length_fileContents]
    omega
  · simp [fileContents_eq]

/-- **A read inside a file returns the slice it was asked for.** -/
theorem readData_slice (hfile : fs.ValidFile inode) {offset length : Word} (hpos : length ≠ 0)
    (hin : offset.toNat + length.toNat ≤ (fs.inodeLength inode).toNat) :
    fs.readData inode offset length =
      ⟨length, ((fs.fileContents inode).drop offset.toNat).take length.toNat⟩ := by
  have hpositive : 0 < length.toNat := by
    rw [Nat.pos_iff_ne_zero]
    intro hzero
    exact hpos (BitVec.eq_of_toNat_eq hzero)
  have hgood : ∀ j, j < length.toNat → fs.badBlock inode ((offset.toNat + j) / 4096) = false :=
    fun j hj => hfile.covered _ (by omega)
  have hreadable : fs.unreadable inode offset = false := by
    have hlt := BitVec.lt_def.mp hfile.inTable
    have hinode : ¬fs.inodeCount ≤ inode := by
      rw [BitVec.le_def]
      omega
    simpa [FileSystem.unreadable, hinode] using hgood 0 hpositive
  -- no position of the read is the end of the file
  have hall : leading (fs.holdsByte inode offset) length.toNat 0 = length.toNat := by
    refine leading_eq_iff.mpr ⟨Nat.le_refl _, fun j hj => ?_, fun h => absurd h (Nat.lt_irrefl _)⟩
    have heof : BitVec.ofNat 32 j + offset ≠ fs.inodeLength inode := by
      intro heq
      have hnat := congrArg BitVec.toNat heq
      have hlt := (fs.inodeLength inode).isLt
      simp only [BitVec.toNat_add, BitVec.toNat_ofNat] at hnat
      omega
    rw [Nat.zero_add, FileSystem.holdsByte, hgood j hj]
    simpa using heof
  have hstart := Nat.div_add_mod' offset.toNat 4096
  have hindex : offset.toNat % 4096 ≤ 4096 := Nat.le_of_lt (Nat.mod_lt _ (by decide))
  have hret := FileSystem.ret_readLoop_eq fs inode offset length.toNat 0 hstart hindex
  have hstored := FileSystem.stored_readLoop fs inode offset length.toNat 0 hstart hindex
  simp only [hall, Nat.lt_irrefl, false_and, if_false, Nat.zero_add, BitVec.ofNat_toNat,
    BitVec.setWidth_eq] at hret hstored
  rw [FileSystem.readData, hreadable, fileContents_slice hin]
  simp only [Bool.false_eq_true, if_false]
  generalize fs.readLoop inode offset length.toNat 0 (offset.toNat / 4096)
    (offset.toNat % 4096) = r at hret hstored ⊢
  rw [← hstored, ← hret]

end Slices

/-! ## One `file_read` after another -/

/-- Calls one after another: the kernel after them, and what each has done. -/
def callEach {α : Type} (call : Kernel → α → CallResult) (k : Kernel) :
    List α → Kernel × List CallResult
  | [] => (k, [])
  | a :: as =>
    let r := call k a
    let rest := callEach call r.kernel as
    (rest.1, r :: rest.2)

/-- Calls of `file_read` on descriptor `i`, one for each buffer and number of bytes. -/
def fileReads (fs : FileSystem) (k : Kernel) (i : Fin 8) (chunks : List (Word × Word)) :
    Kernel × List CallResult :=
  callEach (fun k c => fileRead fs k k.guessedSlot i c.1 c.2) k chunks

/-- The number of bytes asked for. -/
def chunkSum (chunks : List (Word × Word)) : Nat := (chunks.map fun c => c.2.toNat).sum

section Chunks
variable {fs : FileSystem} {k : Kernel} {i : Fin 8} {d : FdEntry}

theorem pcb_advance (slot : Byte) (i : Fin 8) (n : Word) :
    ((k.advance slot i n).pcb slot).fd i =
      { (k.pcb slot).fd i with filePosition := ((k.pcb slot).fd i).filePosition + n } := by
  simp [Kernel.advance, Kernel.setFd, Kernel.setPcb]

/-- `file_read` returns the slice of the file at the descriptor's position, and moves it on. -/
theorem fileRead_slice {slot : Byte} (hd : (k.pcb slot).fd i = d) (hfile : fs.ValidFile d.inode)
    {buf nbytes : Word} (hbuf : buf ≠ 0) (hpos : nbytes ≠ 0)
    (hin : d.filePosition.toNat + nbytes.toNat ≤ (fs.inodeLength d.inode).toNat) :
    fileRead fs k slot i buf nbytes =
      ⟨k.advance slot i nbytes, some nbytes,
        ((fs.fileContents d.inode).drop d.filePosition.toNat).take nbytes.toNat, [(slot, i)]⟩ := by
  have hread := readData_slice hfile hpos hin
  have hvalid : nbytes ≠ minusOne := by
    have hlen := hfile.length_le
    rintro rfl
    have hminus : minusOne.toNat = 2 ^ 32 - 1 := by decide
    omega
  simp only [fileRead, if_neg hbuf, hd, hread, ne_eq, hvalid, not_false_eq_true, if_true]

/-- **Chunk independence**, from any position of a descriptor: each call is served in full,
the position moves on by the sum, and the buffers are consecutive slices. -/
theorem fileReads_slices (hd : (k.pcb k.guessedSlot).fd i = d) (hfile : fs.ValidFile d.inode)
    {chunks : List (Word × Word)} (hchunks : ∀ c ∈ chunks, c.1 ≠ 0 ∧ c.2 ≠ 0)
    (hin : d.filePosition.toNat + chunkSum chunks ≤ (fs.inodeLength d.inode).toNat) :
    let r := fileReads fs k i chunks
    r.2.map (fun c => (c.ret, c.stored.length)) = chunks.map (fun c => (some c.2, c.2.toNat)) ∧
      ((r.1.pcb k.guessedSlot).fd i).filePosition.toNat =
        d.filePosition.toNat + chunkSum chunks ∧
      (r.2.map CallResult.stored).flatten =
        ((fs.fileContents d.inode).drop d.filePosition.toNat).take (chunkSum chunks) := by
  induction chunks generalizing k d with
  | nil =>
    simp only [fileReads, callEach, chunkSum, List.map_nil, List.sum_nil, List.flatten_nil,
      List.take_zero, Nat.add_zero, hd]
    exact ⟨trivial, trivial, trivial⟩
  | cons c chunks ih =>
    obtain ⟨buf, nbytes⟩ := c
    obtain ⟨hbuf, hpos⟩ : buf ≠ 0 ∧ nbytes ≠ 0 := hchunks _ List.mem_cons_self
    have hsum : chunkSum ((buf, nbytes) :: chunks) = nbytes.toNat + chunkSum chunks := by
      simp [chunkSum]
    rw [hsum] at hin ⊢
    have hone := fileRead_slice hd hfile hbuf hpos (by omega)
    have hlen := hfile.length_le
    -- the rest starts where this call has moved the descriptor
    have hposition : (d.filePosition + nbytes).toNat = d.filePosition.toNat + nbytes.toNat := by
      rw [BitVec.toNat_add]
      exact Nat.mod_eq_of_lt (by omega)
    have hd' : ((k.advance k.guessedSlot i nbytes).pcb
        (k.advance k.guessedSlot i nbytes).guessedSlot).fd i =
        { d with filePosition := d.filePosition + nbytes } := by
      have hslot : (k.advance k.guessedSlot i nbytes).guessedSlot = k.guessedSlot := rfl
      rw [hslot, pcb_advance, hd]
    have hrest := ih hd' hfile (fun c hc => hchunks c (List.mem_cons_of_mem _ hc))
      (by simp only [hposition]; omega)
    obtain ⟨hret, hlast, hstored⟩ := hrest
    simp only [hposition] at hlast hstored
    simp only [fileReads] at hret hlast hstored
    simp only [fileReads, callEach, hone, List.map_cons, List.flatten_cons]
    refine ⟨?_, ?_, ?_⟩
    · rw [hret]
      simp only [List.length_take, List.length_drop, length_fileContents]
      rw [Nat.min_eq_left (by omega)]
    · have hslot : (k.advance k.guessedSlot i nbytes).guessedSlot = k.guessedSlot := rfl
      rw [hslot] at hlast
      rw [hlast]
      omega
    · rw [hstored, List.take_add, List.drop_drop]

/-- What an `open` that has returned descriptor `i` leaves behind. -/
theorem open_found {fname : CString} {entry : Dentry} {fd : Word}
    (hfound : fs.readDentryByName fname = some entry)
    (hopen : (Syscall.open fs k (some fname)).ret = some fd) (hfd : fdIndex fd = some i) :
    (Syscall.open fs k (some fname)).kernel =
      if entry.filetype = 0 then intiRtc (k.setFd k.executingSlot i (openedEntry entry))
      else k.setFd k.executingSlot i (openedEntry entry) := by
  have hminus : fdIndex minusOne = none := by decide
  have hindex : ∀ j : Fin 8, fdIndex (BitVec.ofNat 32 j) = some j := by decide
  have hfile : fileOpen fs fname ≠ minusOne := by
    simp [fileOpen, hfound, minusOne]
  simp only [Syscall.open, hfound] at hopen ⊢
  cases hfree : freeFd (k.pcb k.executingSlot).fd with
  | none =>
    rw [hfree] at hopen
    obtain rfl : minusOne = fd := Option.some.inj hopen
    rw [hminus] at hfd
    cases hfd
  | some j =>
    rw [hfree] at hopen
    have hfound' : ¬(entry.filetype ≠ 1 ∧ fileOpen fs fname = minusOne) := fun h => hfile h.2
    have hret : BitVec.ofNat 32 j = fd := by
      by_cases hrtc : entry.filetype = 0
      · simpa only [if_pos hrtc, CallResult.returns, Option.some.injEq] using hopen
      · simpa only [if_neg hrtc, if_neg hfound', CallResult.returns, Option.some.injEq]
          using hopen
    rw [← hret, hindex, Option.some.injEq] at hfd
    rw [← hfd]
    by_cases hrtc : entry.filetype = 0
    · simp only [if_pos hrtc, CallResult.returns]
    · simp only [if_neg hrtc, if_neg hfound', CallResult.returns]

/-- What `open` of a regular file leaves behind. -/
theorem open_regular {fname : CString} {entry : Dentry} {fd : Word}
    (hfound : fs.readDentryByName fname = some entry)
    (hregular : entry.filetype ≠ 0 ∧ entry.filetype ≠ 1)
    (hopen : (Syscall.open fs k (some fname)).ret = some fd) (hfd : fdIndex fd = some i) :
    (Syscall.open fs k (some fname)).kernel =
      k.setFd k.executingSlot i ⟨some .file, entry.inodeNum, 0, 1⟩ := by
  have hentry : openedEntry entry = ⟨some .file, entry.inodeNum, 0, 1⟩ := by
    rw [openedEntry, if_neg hregular.1, if_neg hregular.2]
  rw [open_found hfound hopen hfd, if_neg hregular.1, hentry]

end Chunks

/-- **Chunk independence of file reads.**  A process opens a regular file and reads it, in
chunks that do not go past its end, while `get_current_pid` finds it: every chunk is read in
full, the position is the sum of the chunks, and the buffers together are as much of the file
from its start on. -/
theorem fileReads_chunks {fs : FileSystem} {k : Kernel} {fname : CString} {entry : Dentry}
    {fd : Word} {i : Fin 8} (hfound : fs.readDentryByName fname = some entry)
    (hregular : entry.filetype ≠ 0 ∧ entry.filetype ≠ 1) (hfile : fs.ValidFile entry.inodeNum)
    (hguess : k.guessedSlot = k.executingSlot)
    (hopen : (Syscall.open fs k (some fname)).ret = some fd) (hfd : fdIndex fd = some i)
    {chunks : List (Word × Word)} (hchunks : ∀ c ∈ chunks, c.1 ≠ 0 ∧ c.2 ≠ 0)
    (hin : chunkSum chunks ≤ (fs.inodeLength entry.inodeNum).toNat) :
    let r := fileReads fs (Syscall.open fs k (some fname)).kernel i chunks
    r.2.map (fun c => (c.ret, c.stored.length)) = chunks.map (fun c => (some c.2, c.2.toNat)) ∧
      ((r.1.pcb k.executingSlot).fd i).filePosition.toNat = chunkSum chunks ∧
      (r.2.map CallResult.stored).flatten =
        (fs.fileContents entry.inodeNum).take (chunkSum chunks) := by
  have hkernel := open_regular hfound hregular hopen hfd
  rw [hkernel]
  have hslot : (k.setFd k.executingSlot i ⟨some .file, entry.inodeNum, 0, 1⟩).guessedSlot =
      k.executingSlot := hguess
  have hd : ((k.setFd k.executingSlot i ⟨some .file, entry.inodeNum, 0, 1⟩).pcb
      (k.setFd k.executingSlot i ⟨some .file, entry.inodeNum, 0, 1⟩).guessedSlot).fd i =
      ⟨some .file, entry.inodeNum, 0, 1⟩ := by
    rw [hslot]
    simp [Kernel.setFd, Kernel.setPcb]
  have hreads := fileReads_slices hd hfile hchunks (by simpa using hin)
  rw [hslot] at hreads
  simpa using hreads

/-- The first shell reads its own file in two chunks. -/
theorem fileReads_shell :
    let k := booted shellImage zeroHardware noJunk ⟨0x7FFF00, 0x7FFF40⟩
    let r := fileReads shellImage (Syscall.open shellImage k (some shell)).kernel 2
      [(0x8100000, 4), (0x8100004, 24)]
    r.2.map (fun c => (c.ret, c.stored.length)) = [(some 4, 4), (some 24, 24)] ∧
      ((r.1.pcb k.executingSlot).fd 2).filePosition.toNat = 28 ∧
      (r.2.map CallResult.stored).flatten = (shellImage.fileContents 0).take 28 := by
  have hfound : shellImage.readDentryByName shell = some ⟨shell, 2, 0⟩ := by decide +kernel
  have hfd : fdIndex 2 = some 2 := by decide
  have hfile : shellImage.ValidFile 0 := ⟨by decide +kernel, by decide +kernel, fun n hn => by
    have hlength : (shellImage.inodeLength 0).toNat = 28 := by decide +kernel
    have hlt : n * 4096 < (shellImage.inodeLength 0).toNat := hn
    obtain rfl : n = 0 := by omega
    decide +kernel⟩
  exact fileReads_chunks hfound (by decide) hfile (by decide +kernel) (by decide +kernel) hfd
    (by simp) (by decide +kernel)

end LinuxLikeOS
