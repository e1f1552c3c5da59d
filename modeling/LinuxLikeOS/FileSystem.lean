import LinuxLikeOS.CTypes
import LinuxLikeOS.CountedLoop

/-! # The file system

The image GRUB loads is read in place: a boot block of 4096 bytes with counts and
63 directory entries, then the inodes, then the data blocks.  `file_system.c`
follows pointers into it with no check that they stay inside, so the model reads
the kernel's memory `mem` at 32-bit addresses.  `inode_count`, `data_count` and
the block numbers are `int32_t`; the comparisons below are signed or unsigned as
the C types make them.
-/
namespace LinuxLikeOS
open CountedLoop

/-- The kernel's memory and the address `file_system_init` got. -/
structure FileSystem where
  mem : Word → Byte
  bootBlock : Word

/-- What the lookups put in a `dentry_t`: the name up to its NUL or 32 bytes. -/
structure Dentry where
  filename : CString
  filetype : Word
  inodeNum : Word
  deriving DecidableEq

/-- What `read_data` returns, and the bytes it has stored from `buf` on by then. -/
structure ReadData where
  ret : Word
  stored : List Byte
  deriving DecidableEq

/-- `strncmp(s1 + i, s2 + i, n)`: zero iff the strings agree that far.  `char` is
signed. -/
def strncmp (s1 s2 : Nat → Byte) : Nat → Nat → Int
  | 0, _ => 0
  | n + 1, i =>
    if s1 i ≠ s2 i ∨ s1 i = 0 then (s1 i).toInt - (s2 i).toInt else strncmp s1 s2 n (i + 1)

namespace FileSystem
variable (fs : FileSystem)

def dirCount : Word := loadWord fs.mem fs.bootBlock

def inodeCount : Word := loadWord fs.mem (fs.bootBlock + 4)

def dataCount : Word := loadWord fs.mem (fs.bootBlock + 8)

def inodeBlockStart : Word := fs.bootBlock + 4096

def dataBlockStart : Word := fs.inodeBlockStart + fs.inodeCount * 4096

/-- The address of `boot_block->direntries[i]`. -/
def direntry (i : Nat) : Word := fs.bootBlock + 64 + BitVec.ofNat 32 (64 * i)

/-- `inode_to_read->length`. -/
def inodeLength (inode : Word) : Word := loadWord fs.mem (fs.inodeBlockStart + inode * 4096)

/-- `inode_to_read->data_block_num[n]`; past 1022 this is memory after the inode. -/
def dataBlockNum (inode : Word) (n : Nat) : Word :=
  loadWord fs.mem (fs.inodeBlockStart + inode * 4096 + 4 + BitVec.ofNat 32 (4 * n))

/-- The name in the entry at `a`: up to its NUL, or all 32 bytes. -/
def nameAt (a : Word) : CString :=
  CString.ofBytes ((List.range 32).map fun j => fs.mem (a + BitVec.ofNat 32 j))

/-- Copies the entry at `a`. -/
def dentryAt (a : Word) : Dentry :=
  ⟨fs.nameAt a, loadWord fs.mem (a + 32), loadWord fs.mem (a + 36)⟩

/-- The test of `read_dentry_by_name` on the entry at `a`. -/
def nameMatches (fname : CString) (a : Word) : Bool :=
  strncmp fname.get (fun j => fs.mem (a + BitVec.ofNat 32 j)) 32 0 = 0 ∧ fname.strlen ≤ 32

/-- The loop of `read_dentry_by_name`, `n` entries from entry `i` on. -/
def findDentry (fname : CString) : Nat → Nat → Option Dentry
  | 0, _ => none
  | n + 1, i =>
    if fs.nameMatches fname (fs.direntry i) then some (fs.dentryAt (fs.direntry i))
    else findDentry fname n (i + 1)

/-- `read_dentry_by_name`; `none` is its `-1`, with the dentry untouched. -/
def readDentryByName (fname : CString) : Option Dentry :=
  fs.findDentry fname fs.dirCount.toInt.toNat 0

/-- `read_dentry_by_index`; `none` is its `-1`. -/
def readDentryByIndex (index : Word) : Option Dentry :=
  if index < fs.dirCount then some (fs.dentryAt (fs.direntry index.toNat)) else none

/-- The check on a block number: it is at least `data_count`, as `int32_t`s. -/
def badBlock (inode : Word) (n : Nat) : Bool := fs.dataCount.sle (fs.dataBlockNum inode n)

/-- The byte at `index` of block `n` of an inode. -/
def dataByte (inode : Word) (n index : Nat) : Byte :=
  fs.mem (fs.dataBlockStart + fs.dataBlockNum inode n * 4096 + BitVec.ofNat 32 index)

/-- The loop of `read_data`, `n` iterations from iteration `i` on; `num` and
`index` are `read_start_data_block_num` and `read_start_data_block_index`, and
`bytes_read_and_placed` is `i` throughout. -/
def readLoop (inode offset : Word) : Nat → Nat → Nat → Nat → ReadData
  | 0, i, _, _ => ⟨BitVec.ofNat 32 i, []⟩
  | n + 1, i, num, index =>
    let num' := if index = 4096 then num + 1 else num
    let index' := if index = 4096 then 0 else index
    -- the block is checked before the end of the file is
    if fs.badBlock inode num' then ⟨minusOne, []⟩
    else if BitVec.ofNat 32 i + offset = fs.inodeLength inode then ⟨BitVec.ofNat 32 i, []⟩
    else
      let rest := readLoop inode offset n (i + 1) num' (index' + 1)
      ⟨rest.ret, fs.dataByte inode num' index' :: rest.stored⟩

/-- The two checks of `read_data` before its loop: the inode number, and the block
the read starts in. -/
def unreadable (inode offset : Word) : Bool :=
  fs.inodeCount ≤ inode || fs.badBlock inode (offset.toNat / 4096)

/-- `read_data`. -/
def readData (inode offset length : Word) : ReadData :=
  if fs.unreadable inode offset then ⟨minusOne, []⟩
  else fs.readLoop inode offset length.toNat 0 (offset.toNat / 4096) (offset.toNat % 4096)

/-! ## How much `read_data` stores -/

/-- Position `i` of a read from `offset` on holds a byte of the file: its block
number passes the check, and it is not the end of the file. -/
def holdsByte (inode offset : Word) (i : Nat) : Bool :=
  !fs.badBlock inode ((offset.toNat + i) / 4096) &&
    BitVec.ofNat 32 i + offset != fs.inodeLength inode

variable {fs}

/-- Carrying the index into the block number gives the quotient and remainder of
the position. -/
theorem carry_position {num index pos : Nat} (hpos : num * 4096 + index = pos)
    (hindex : index ≤ 4096) :
    (if index = 4096 then num + 1 else num) = pos / 4096 ∧
      (if index = 4096 then 0 else index) = pos % 4096 := by
  by_cases h : index = 4096
  · rw [if_pos h, if_pos h]
    omega
  · rw [if_neg h, if_neg h]
    omega

/-- The position the next iteration is at. -/
theorem next_position (offset i : Nat) :
    (offset + i) / 4096 * 4096 + ((offset + i) % 4096 + 1) = offset + (i + 1) ∧
      (offset + i) % 4096 + 1 ≤ 4096 := by
  have hlt : (offset + i) % 4096 < 4096 := Nat.mod_lt _ (by decide)
  have hdiv : (offset + i) / 4096 * 4096 + (offset + i) % 4096 = offset + i :=
    Nat.div_add_mod' _ 4096
  exact ⟨by rw [← Nat.add_assoc, hdiv, Nat.add_assoc], hlt⟩

/-- One iteration of the loop of `read_data`, by the position it is at. -/
theorem readLoop_succ (fs : FileSystem) (inode offset : Word) (n i : Nat) {num index pos : Nat}
    (hpos : num * 4096 + index = pos) (hindex : index ≤ 4096) :
    fs.readLoop inode offset (n + 1) i num index =
      if fs.badBlock inode (pos / 4096) then ⟨minusOne, []⟩
      else if BitVec.ofNat 32 i + offset = fs.inodeLength inode then ⟨BitVec.ofNat 32 i, []⟩
      else
        let rest := fs.readLoop inode offset n (i + 1) (pos / 4096) (pos % 4096 + 1)
        ⟨rest.ret, fs.dataByte inode (pos / 4096) (pos % 4096) :: rest.stored⟩ := by
  obtain ⟨hnum, hidx⟩ := carry_position hpos hindex
  simp only [readLoop, hnum, hidx]

/-- What an iteration can do: copy a byte and go on, give up at a bad block, or stop at the
end of the file. -/
theorem readLoop_cases (fs : FileSystem) (inode offset : Word) (n i : Nat) {num index : Nat}
    (hpos : num * 4096 + index = offset.toNat + i) (hindex : index ≤ 4096) :
    let pos := offset.toNat + i
    let rest := fs.readLoop inode offset n (i + 1) (pos / 4096) (pos % 4096 + 1)
    (fs.holdsByte inode offset i = true ∧ fs.readLoop inode offset (n + 1) i num index =
      ⟨rest.ret, fs.dataByte inode (pos / 4096) (pos % 4096) :: rest.stored⟩) ∨
    (fs.holdsByte inode offset i = false ∧ fs.badBlock inode (pos / 4096) = true ∧
      fs.readLoop inode offset (n + 1) i num index = ⟨minusOne, []⟩) ∨
    (fs.holdsByte inode offset i = false ∧ fs.badBlock inode (pos / 4096) = false ∧
      fs.readLoop inode offset (n + 1) i num index = ⟨BitVec.ofNat 32 i, []⟩) := by
  rw [readLoop_succ fs inode offset n i hpos hindex, holdsByte]
  by_cases hbad : fs.badBlock inode ((offset.toNat + i) / 4096) = true
  · exact Or.inr (Or.inl (by simp [hbad]))
  · by_cases heof : BitVec.ofNat 32 i + offset = fs.inodeLength inode
    · exact Or.inr (Or.inr (by simp [hbad, heof]))
    · exact Or.inl (by simp [hbad, heof])

/-- **The loop of `read_data` stores the positions that hold bytes**, up to the
first that does not. -/
theorem stored_readLoop (fs : FileSystem) (inode offset : Word) (n i : Nat) {num index : Nat}
    (hpos : num * 4096 + index = offset.toNat + i) (hindex : index ≤ 4096) :
    (fs.readLoop inode offset n i num index).stored =
      (List.range (leading (fs.holdsByte inode offset) n i)).map fun j =>
        fs.dataByte inode ((offset.toNat + (i + j)) / 4096) ((offset.toNat + (i + j)) % 4096) := by
  -- on the iterations left; `hpos` ties block number and index to the position
  induction n generalizing i num index with
  | zero => rfl
  | succ n ih =>
    obtain ⟨hnext, hle⟩ := next_position offset.toNat i
    rcases readLoop_cases fs inode offset n i hpos hindex with
      ⟨hholds, heq⟩ | ⟨hholds, _, heq⟩ | ⟨hholds, _, heq⟩ <;> rw [heq, leading, hholds]
    · have hstep : ∀ j, i + 1 + j = i + (j + 1) := fun j => by omega
      simp [ih _ hnext hle, List.range_succ_eq_map, Function.comp_def, hstep]
    · rfl
    · rfl

theorem length_readLoop {inode offset : Word} {n i num index : Nat}
    (hpos : num * 4096 + index = offset.toNat + i) (hindex : index ≤ 4096) :
    (fs.readLoop inode offset n i num index).stored.length =
      leading (fs.holdsByte inode offset) n i := by
  rw [stored_readLoop fs inode offset n i hpos hindex, List.length_map, List.length_range]

/-- What the loop returns: `-1` if it has stopped at a bad block, and otherwise the number of
bytes it has stored. -/
theorem ret_readLoop_eq (fs : FileSystem) (inode offset : Word) (n i : Nat) {num index : Nat}
    (hpos : num * 4096 + index = offset.toNat + i) (hindex : index ≤ 4096) :
    let m := leading (fs.holdsByte inode offset) n i
    (fs.readLoop inode offset n i num index).ret =
      if m < n ∧ fs.badBlock inode ((offset.toNat + (i + m)) / 4096) then minusOne
      else BitVec.ofNat 32 (i + m) := by
  induction n generalizing i num index with
  | zero => rfl
  | succ n ih =>
    obtain ⟨hnext, hle⟩ := next_position offset.toNat i
    rcases readLoop_cases fs inode offset n i hpos hindex with
      ⟨hholds, heq⟩ | ⟨hholds, hbad, heq⟩ | ⟨hholds, hbad, heq⟩ <;> rw [heq, leading, hholds]
    · have hstep : ∀ m, i + 1 + m = i + (m + 1) := fun m => by omega
      have ih' := ih _ hnext hle
      simp only [hstep] at ih'
      simp [ih']
    · simp [hbad]
    · simp [hbad]

theorem ret_readLoop (fs : FileSystem) (inode offset : Word) (n i : Nat) {num index : Nat}
    (hpos : num * 4096 + index = offset.toNat + i) (hindex : index ≤ 4096) :
    (fs.readLoop inode offset n i num index).ret = minusOne ∨
      (fs.readLoop inode offset n i num index).ret =
        BitVec.ofNat 32 (i + (fs.readLoop inode offset n i num index).stored.length) := by
  rw [ret_readLoop_eq fs inode offset n i hpos hindex, length_readLoop hpos hindex]
  split
  · exact Or.inl rfl
  · exact Or.inr rfl

/-- The bytes a read of `length` bytes from `offset` stores. -/
theorem length_readData (inode offset length : Word) :
    (fs.readData inode offset length).stored.length =
      if fs.unreadable inode offset then 0
      else leading (fs.holdsByte inode offset) length.toNat 0 := by
  unfold readData
  split
  · rfl
  · exact length_readLoop (Nat.div_add_mod' offset.toNat 4096)
      (Nat.le_of_lt (Nat.mod_lt _ (by decide)))

theorem ret_readData (inode offset length : Word) :
    (fs.readData inode offset length).ret = minusOne ∨
      (fs.readData inode offset length).ret =
        BitVec.ofNat 32 (fs.readData inode offset length).stored.length := by
  unfold readData
  split
  · exact Or.inl rfl
  · simpa using ret_readLoop fs inode offset length.toNat 0
      (Nat.div_add_mod' offset.toNat 4096) (Nat.le_of_lt (Nat.mod_lt _ (by decide)))

/-- A refused read returns `-1` and stores nothing. -/
theorem readData_of_unreadable {inode offset : Word} (length : Word)
    (h : fs.unreadable inode offset = true) : fs.readData inode offset length = ⟨minusOne, []⟩ := by
  simp [readData, h]

/-- A read that passes the checks and stores nothing returns 0. -/
theorem readData_ret_of_empty {inode offset : Word} (length : Word)
    (h : fs.unreadable inode offset = false)
    (hempty : (fs.readData inode offset length).stored = []) :
    (fs.readData inode offset length).ret = 0 := by
  have hblock : fs.badBlock inode (offset.toNat / 4096) = false := by
    simp only [unreadable, Bool.or_eq_false_iff] at h
    exact h.2
  rw [readData, if_neg (by simp [h])] at hempty ⊢
  -- the first iteration decides: its block is good, so only the end of the file is left
  cases hn : length.toNat with
  | zero => rfl
  | succ n =>
    have hstep := readLoop_succ fs inode offset n 0
      (Nat.div_add_mod' offset.toNat 4096) (Nat.le_of_lt (Nat.mod_lt _ (by decide)))
    rw [hn, hstep] at hempty
    rw [hstep]
    by_cases heof : BitVec.ofNat 32 0 + offset = fs.inodeLength inode
    · rw [if_neg (by simp [hblock]), if_pos heof]
      rfl
    · rw [if_neg (by simp [hblock]), if_neg heof] at hempty
      cases hempty

end FileSystem

end LinuxLikeOS
