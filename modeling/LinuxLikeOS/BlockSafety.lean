import LinuxLikeOS.FileSystem

/-! # Where `read_data` reads

`read_data` trusts the image: it takes block numbers from the inode's table, checks each
against `data_count`, and copies from the block.  `tracedReadData` is the same function with
a record of its accesses, the entries of the table it has read and the block of each byte it
has copied; forgetting the record gives `read_data` back.

The check is a comparison of two `int32_t`s, so a negative block number passes it, and the
index into the table is not checked at all.  A read is safe exactly if it meets neither: the
positions it gets to are in the first 1023 blocks, and their block numbers, where it copies
from them, are not negative (`SafeToRead`).
-/
namespace LinuxLikeOS
open CountedLoop

/-- What `read_data` has done: the entries of `data_block_num` it has read, and the number
of the block from which it has copied each byte. -/
structure TracedRead extends ReadData where
  entries : List Nat
  blocks : List Word

namespace FileSystem
variable (fs : FileSystem)

/-- The loop of `read_data`, with its accesses. -/
def tracedLoop (inode offset : Word) : Nat → Nat → Nat → Nat → TracedRead
  | 0, i, _, _ => ⟨⟨BitVec.ofNat 32 i, []⟩, [], []⟩
  | n + 1, i, num, index =>
    let num' := if index = 4096 then num + 1 else num
    let index' := if index = 4096 then 0 else index
    if fs.badBlock inode num' then ⟨⟨minusOne, []⟩, [num'], []⟩
    else if BitVec.ofNat 32 i + offset = fs.inodeLength inode then
      ⟨⟨BitVec.ofNat 32 i, []⟩, [num'], []⟩
    else
      -- the entry is read for the check, and again for the address
      let rest := tracedLoop inode offset n (i + 1) num' (index' + 1)
      ⟨⟨rest.ret, fs.dataByte inode num' index' :: rest.stored⟩, num' :: num' :: rest.entries,
        fs.dataBlockNum inode num' :: rest.blocks⟩

/-- `read_data`, with its accesses. -/
def tracedReadData (inode offset length : Word) : TracedRead :=
  let num := offset.toNat / 4096
  if fs.inodeCount ≤ inode then ⟨⟨minusOne, []⟩, [], []⟩
  else if fs.badBlock inode num then ⟨⟨minusOne, []⟩, [num], []⟩
  else
    let loop := fs.tracedLoop inode offset length.toNat 0 num (offset.toNat % 4096)
    { loop with entries := num :: loop.entries }

/-! ## Safe reads -/

/-- The block number is that of a data block. -/
def IsDataBlock (block : Word) : Prop := 0 ≤ block.toInt ∧ block.toInt < fs.dataCount.toInt

/-- **Block safety** of one call: bytes are copied from data blocks only, only the 1023
entries of the table are read, and the call ends with `-1` at an inode number that is out of
range, and at the first position of the file whose block is not a data block. -/
structure BlockSafe (inode offset length : Word) : Prop where
  copied : ∀ block ∈ (fs.tracedReadData inode offset length).blocks, fs.IsDataBlock block
  inTable : ∀ n ∈ (fs.tracedReadData inode offset length).entries, n ≤ 1022
  badInode : ¬(inode.toNat : Int) < fs.inodeCount.toInt →
    (fs.readData inode offset length).ret = minusOne
  badBlock : ∀ i, i < length.toNat → offset.toNat + i < (fs.inodeLength inode).toNat →
    ¬fs.IsDataBlock (fs.dataBlockNum inode ((offset.toNat + i) / 4096)) →
    (fs.readData inode offset length).ret = minusOne ∧
      (fs.readData inode offset length).stored.length ≤ i

/-- The read gets as far as its `i`-th position: those before hold bytes. -/
def Reaches (inode offset length : Word) (i : Nat) : Prop :=
  i < length.toNat ∧ ∀ j, j < i → fs.holdsByte inode offset j = true

/-- The offset is in the first 1023 blocks, and so are the positions that the read gets to,
if it gets past its first check; the block numbers of those that hold bytes are not
negative. -/
def SafeToRead (inode offset length : Word) : Prop :=
  offset.toNat < 1023 * 4096 ∧ (fs.badBlock inode (offset.toNat / 4096) = true ∨
    ∀ i, fs.Reaches inode offset length i → offset.toNat + i < 1023 * 4096 ∧
      (fs.holdsByte inode offset i = true →
        0 ≤ (fs.dataBlockNum inode ((offset.toNat + i) / 4096)).toInt))

/-! ## The record of the accesses -/

section Accesses
variable {fs}

/-- One iteration of the traced loop, by the position it is at. -/
theorem tracedLoop_succ (fs : FileSystem) (inode offset : Word) (n i : Nat) {num index pos : Nat}
    (hpos : num * 4096 + index = pos) (hindex : index ≤ 4096) :
    fs.tracedLoop inode offset (n + 1) i num index =
      if fs.badBlock inode (pos / 4096) then ⟨⟨minusOne, []⟩, [pos / 4096], []⟩
      else if BitVec.ofNat 32 i + offset = fs.inodeLength inode then
        ⟨⟨BitVec.ofNat 32 i, []⟩, [pos / 4096], []⟩
      else
        let rest := fs.tracedLoop inode offset n (i + 1) (pos / 4096) (pos % 4096 + 1)
        ⟨⟨rest.ret, fs.dataByte inode (pos / 4096) (pos % 4096) :: rest.stored⟩,
          pos / 4096 :: pos / 4096 :: rest.entries,
          fs.dataBlockNum inode (pos / 4096) :: rest.blocks⟩ := by
  obtain ⟨hnum, hidx⟩ := carry_position hpos hindex
  simp only [tracedLoop, hnum, hidx]

theorem tracedLoop_toReadData (inode offset : Word) (n i num index : Nat) :
    (fs.tracedLoop inode offset n i num index).toReadData =
      fs.readLoop inode offset n i num index := by
  induction n generalizing i num index with
  | zero => rfl
  | succ n ih =>
    simp only [tracedLoop, readLoop]
    generalize (if index = 4096 then num + 1 else num) = num'
    generalize (if index = 4096 then 0 else index) = index'
    rw [← ih]
    split
    · rfl
    · split <;> rfl

/-- **Forgetting the accesses gives `read_data`.** -/
theorem tracedReadData_toReadData (fs : FileSystem) (inode offset length : Word) :
    (fs.tracedReadData inode offset length).toReadData = fs.readData inode offset length := by
  unfold tracedReadData readData unreadable
  dsimp only
  by_cases hinode : fs.inodeCount ≤ inode
  · simp [hinode]
  · by_cases hbad : fs.badBlock inode (offset.toNat / 4096) = true
    · simp [hinode, hbad]
    · simp [hinode, hbad, tracedLoop_toReadData]

/-- What an iteration looks at: the entry of its position twice and the block once, if there is
a byte to copy, and otherwise the entry. -/
theorem tracedLoop_cases (fs : FileSystem) (inode offset : Word) (n i : Nat) {num index : Nat}
    (hpos : num * 4096 + index = offset.toNat + i) (hindex : index ≤ 4096) :
    let pos := offset.toNat + i
    let rest := fs.tracedLoop inode offset n (i + 1) (pos / 4096) (pos % 4096 + 1)
    let loop := fs.tracedLoop inode offset (n + 1) i num index
    (fs.holdsByte inode offset i = true ∧ loop.entries = pos / 4096 :: pos / 4096 :: rest.entries ∧
      loop.blocks = fs.dataBlockNum inode (pos / 4096) :: rest.blocks) ∨
    (fs.holdsByte inode offset i = false ∧ loop.entries = [pos / 4096] ∧ loop.blocks = []) := by
  rw [tracedLoop_succ fs inode offset n i hpos hindex, holdsByte]
  by_cases hbad : fs.badBlock inode ((offset.toNat + i) / 4096) = true
  · exact Or.inr (by simp [hbad])
  · by_cases heof : BitVec.ofNat 32 i + offset = fs.inodeLength inode
    · exact Or.inr (by simp [hbad, heof])
    · exact Or.inl (by simp [hbad, heof])

/-- The loop copies from the blocks of the positions that hold bytes. -/
theorem blocks_tracedLoop (fs : FileSystem) (inode offset : Word) (n i : Nat) {num index : Nat}
    (hpos : num * 4096 + index = offset.toNat + i) (hindex : index ≤ 4096) :
    (fs.tracedLoop inode offset n i num index).blocks =
      (List.range (leading (fs.holdsByte inode offset) n i)).map fun j =>
        fs.dataBlockNum inode ((offset.toNat + (i + j)) / 4096) := by
  induction n generalizing i num index with
  | zero => rfl
  | succ n ih =>
    obtain ⟨hnext, hle⟩ := next_position offset.toNat i
    rcases tracedLoop_cases fs inode offset n i hpos hindex with
      ⟨hholds, _, hblocks⟩ | ⟨hholds, _, hblocks⟩ <;> rw [hblocks, leading, hholds]
    · have hstep : ∀ j, i + 1 + j = i + (j + 1) := fun j => by omega
      simp [ih _ hnext hle, List.range_succ_eq_map, Function.comp_def, hstep]
    · rfl

/-- The loop reads the entries of the positions it gets to. -/
theorem mem_entries_tracedLoop (fs : FileSystem) (inode offset : Word) (n i : Nat)
    {num index : Nat} (hpos : num * 4096 + index = offset.toNat + i) (hindex : index ≤ 4096)
    (e : Nat) :
    e ∈ (fs.tracedLoop inode offset n i num index).entries ↔
      ∃ j, j < n ∧ j ≤ leading (fs.holdsByte inode offset) n i ∧
        e = (offset.toNat + (i + j)) / 4096 := by
  induction n generalizing i num index with
  | zero => simp [tracedLoop]
  | succ n ih =>
    obtain ⟨hnext, hle⟩ := next_position offset.toNat i
    rcases tracedLoop_cases fs inode offset n i hpos hindex with
      ⟨hholds, hentries, _⟩ | ⟨hholds, hentries, _⟩ <;> rw [hentries, leading, hholds]
    · simp only [List.mem_cons, ih _ hnext hle, if_true]
      constructor
      · rintro (rfl | rfl | ⟨j, hj, hm, rfl⟩)
        · exact ⟨0, Nat.succ_pos n, Nat.zero_le _, rfl⟩
        · exact ⟨0, Nat.succ_pos n, Nat.zero_le _, rfl⟩
        · exact ⟨j + 1, Nat.succ_lt_succ hj, Nat.succ_le_succ hm, by
            rw [show i + 1 + j = i + (j + 1) by omega]⟩
      · rintro ⟨j, hj, hm, rfl⟩
        cases j with
        | zero => exact Or.inl rfl
        | succ j =>
          exact Or.inr (Or.inr ⟨j, Nat.lt_of_succ_lt_succ hj, Nat.le_of_succ_le_succ hm, by
            rw [show i + 1 + j = i + (j + 1) by omega]⟩)
    · simp only [Bool.false_eq_true, if_false, List.mem_singleton, Nat.le_zero]
      constructor
      · rintro rfl
        exact ⟨0, Nat.succ_pos n, rfl, rfl⟩
      · rintro ⟨j, _, rfl, rfl⟩
        rfl

/-- The positions a read gets to, counted by its loop. -/
theorem reaches_iff {inode offset length : Word} {i : Nat} :
    fs.Reaches inode offset length i ↔
      i < length.toNat ∧ i ≤ leading (fs.holdsByte inode offset) length.toNat 0 := by
  unfold Reaches
  refine and_congr_right fun hi => ⟨fun hall => ?_, fun hle j hj => ?_⟩
  · by_contra hlt
    have hstop := leading_stop (p := fs.holdsByte inode offset) (n := length.toNat) (i := 0)
      (by omega)
    rw [Nat.zero_add, hall _ (by omega)] at hstop
    cases hstop
  · have := leading_pass (p := fs.holdsByte inode offset) (n := length.toNat) (i := 0) (j := j)
      (by omega)
    rwa [Nat.zero_add] at this

end Accesses

/-! ## Reads that pass the first checks -/

section Readable
variable {fs} {inode offset length : Word}

theorem tracedReadData_of_readable (fs : FileSystem) (length : Word)
    (hinode : ¬fs.inodeCount ≤ inode) (hblock : fs.badBlock inode (offset.toNat / 4096) = false) :
    fs.tracedReadData inode offset length =
      let loop := fs.tracedLoop inode offset length.toNat 0 (offset.toNat / 4096)
        (offset.toNat % 4096)
      { loop with entries := offset.toNat / 4096 :: loop.entries } := by
  simp only [tracedReadData, hinode, hblock, if_false, Bool.false_eq_true]

/-- The entries that a read looks at. -/
theorem mem_entries_of_readable (hinode : ¬fs.inodeCount ≤ inode)
    (hblock : fs.badBlock inode (offset.toNat / 4096) = false) (e : Nat) :
    e ∈ (fs.tracedReadData inode offset length).entries ↔
      e = offset.toNat / 4096 ∨
        ∃ i, fs.Reaches inode offset length i ∧ e = (offset.toNat + i) / 4096 := by
  rw [tracedReadData_of_readable fs length hinode hblock]
  simp only [List.mem_cons]
  rw [mem_entries_tracedLoop fs inode offset length.toNat 0 (Nat.div_add_mod' offset.toNat 4096)
    (Nat.le_of_lt (Nat.mod_lt _ (by decide)))]
  simp only [reaches_iff, Nat.zero_add, and_assoc]

/-- The blocks that a read copies from. -/
theorem mem_blocks_of_readable (hinode : ¬fs.inodeCount ≤ inode)
    (hblock : fs.badBlock inode (offset.toNat / 4096) = false) (block : Word) :
    block ∈ (fs.tracedReadData inode offset length).blocks ↔
      ∃ i, fs.Reaches inode offset length i ∧ fs.holdsByte inode offset i = true ∧
        block = fs.dataBlockNum inode ((offset.toNat + i) / 4096) := by
  rw [tracedReadData_of_readable fs length hinode hblock]
  simp only
  rw [blocks_tracedLoop fs inode offset length.toNat 0 (Nat.div_add_mod' offset.toNat 4096)
    (Nat.le_of_lt (Nat.mod_lt _ (by decide)))]
  simp only [List.mem_map, List.mem_range, reaches_iff, Nat.zero_add]
  constructor
  · rintro ⟨i, hi, rfl⟩
    have hle := leading_le (p := fs.holdsByte inode offset) length.toNat 0
    have hholds := leading_pass hi
    rw [Nat.zero_add] at hholds
    exact ⟨i, ⟨by omega, Nat.le_of_lt hi⟩, hholds, rfl⟩
  · rintro ⟨i, ⟨hlt, hle⟩, hholds, rfl⟩
    refine ⟨i, ?_, rfl⟩
    -- the position holds a byte, so the loop does not stop there
    rcases Nat.lt_or_eq_of_le hle with hbefore | heq
    · exact hbefore
    · have hstop := leading_stop (p := fs.holdsByte inode offset) (n := length.toNat) (i := 0)
        (by omega)
      rw [Nat.zero_add, ← heq, hholds] at hstop
      cases hstop

/-- A position that holds a byte has a block number below `data_count`. -/
theorem lt_dataCount_of_holdsByte {i : Nat} (h : fs.holdsByte inode offset i = true) :
    (fs.dataBlockNum inode ((offset.toNat + i) / 4096)).toInt < fs.dataCount.toInt := by
  have hgood : fs.badBlock inode ((offset.toNat + i) / 4096) = false := by
    simp only [holdsByte, Bool.and_eq_true, Bool.not_eq_true'] at h
    exact h.1
  simp only [badBlock, BitVec.sle_eq_decide, decide_eq_false_iff_not] at hgood
  omega

/-- If no position that holds a byte has a negative block number, the read stops with `-1` at
the first position of the file whose block is not a data block. -/
theorem stops_at_badBlock (hblock : fs.badBlock inode (offset.toNat / 4096) = false)
    (hinode : ¬fs.inodeCount ≤ inode)
    (hsafe : ∀ i, fs.Reaches inode offset length i → fs.holdsByte inode offset i = true →
      0 ≤ (fs.dataBlockNum inode ((offset.toNat + i) / 4096)).toInt)
    {i : Nat} (hi : i < length.toNat) (hfile : offset.toNat + i < (fs.inodeLength inode).toNat)
    (hbad : ¬fs.IsDataBlock (fs.dataBlockNum inode ((offset.toNat + i) / 4096))) :
    (fs.readData inode offset length).ret = minusOne ∧
      (fs.readData inode offset length).stored.length ≤ i := by
  have hreadable : fs.unreadable inode offset = false := by
    simp [unreadable, hinode, hblock]
  have hstart := Nat.div_add_mod' offset.toNat 4096
  have hlast : offset.toNat % 4096 ≤ 4096 := Nat.le_of_lt (Nat.mod_lt _ (by decide))
  set m := leading (fs.holdsByte inode offset) length.toNat 0 with hm
  have hmi : m ≤ i := by
    by_contra hlt
    have hholds := leading_pass (p := fs.holdsByte inode offset) (n := length.toNat) (i := 0)
      (j := i) (by omega)
    rw [Nat.zero_add] at hholds
    exact hbad ⟨hsafe i (reaches_iff.mpr ⟨hi, by omega⟩) hholds, lt_dataCount_of_holdsByte hholds⟩
  have hstop := leading_stop (p := fs.holdsByte inode offset) (n := length.toNat) (i := 0)
    (by omega)
  rw [Nat.zero_add, ← hm] at hstop
  -- it has not stopped at the end of the file, which is behind
  have hbefore : BitVec.ofNat 32 m + offset ≠ fs.inodeLength inode := by
    intro heof
    have hnat := congrArg BitVec.toNat heof
    have hlt := (fs.inodeLength inode).isLt
    simp only [BitVec.toNat_add, BitVec.toNat_ofNat] at hnat
    omega
  have hatBad : fs.badBlock inode ((offset.toNat + m) / 4096) = true := by
    simpa [holdsByte, hbefore] using hstop
  simp only [readData, hreadable, Bool.false_eq_true, if_false]
  refine ⟨?_, ?_⟩
  · rw [ret_readLoop_eq fs inode offset length.toNat 0 hstart hlast]
    simp only [← hm, Nat.zero_add]
    rw [if_pos ⟨by omega, hatBad⟩]
  · rw [length_readLoop hstart hlast]
    exact hmi

/-- A read that passes the first checks is block-safe exactly if the positions it gets to are
in the first 1023 blocks, and those that hold bytes have no negative block number. -/
theorem blockSafe_iff_of_readable (hrange : (inode.toNat : Int) < fs.inodeCount.toInt)
    (hinode : ¬fs.inodeCount ≤ inode) (hblock : fs.badBlock inode (offset.toNat / 4096) = false) :
    fs.BlockSafe inode offset length ↔ offset.toNat < 1023 * 4096 ∧
      ∀ i, fs.Reaches inode offset length i → offset.toNat + i < 1023 * 4096 ∧
        (fs.holdsByte inode offset i = true →
          0 ≤ (fs.dataBlockNum inode ((offset.toNat + i) / 4096)).toInt) := by
  have hentries : ∀ e, e ∈ (fs.tracedReadData inode offset length).entries ↔ _ :=
    mem_entries_of_readable hinode hblock
  have hblocks : ∀ block, block ∈ (fs.tracedReadData inode offset length).blocks ↔ _ :=
    mem_blocks_of_readable hinode hblock
  constructor
  · intro h
    have hfirst := h.inTable (offset.toNat / 4096) ((hentries _).mpr (Or.inl rfl))
    refine ⟨by omega, fun i hi => ⟨?_, fun hholds => ?_⟩⟩
    · have hentry := h.inTable _ ((hentries _).mpr (Or.inr ⟨i, hi, rfl⟩))
      omega
    · exact (h.copied _ ((hblocks _).mpr ⟨i, hi, hholds, rfl⟩)).1
  · rintro ⟨hoffset, hsafe⟩
    refine ⟨fun block hmem => ?_, fun e hmem => ?_, fun h => absurd hrange h,
      fun i hi hfile hnot => stops_at_badBlock hblock hinode (fun j hj => (hsafe j hj).2) hi hfile
        hnot⟩
    · obtain ⟨i, hi, hholds, rfl⟩ := (hblocks _).mp hmem
      exact ⟨(hsafe i hi).2 hholds, lt_dataCount_of_holdsByte hholds⟩
    · rcases (hentries _).mp hmem with rfl | ⟨i, hi, rfl⟩
      · omega
      · have hpos := (hsafe i hi).1
        omega

end Readable

section Refused
variable {fs} {inode offset length : Word}

/-- An inode number out of range: nothing is read. -/
theorem blockSafe_of_inodeCount_le (hinode : fs.inodeCount ≤ inode) :
    fs.BlockSafe inode offset length := by
  have hread : fs.readData inode offset length = ⟨minusOne, []⟩ := by
    simp [readData, unreadable, hinode]
  have htraced : fs.tracedReadData inode offset length = ⟨⟨minusOne, []⟩, [], []⟩ := by
    simp [tracedReadData, hinode]
  refine ⟨?_, ?_, fun _ => by rw [hread], fun i _ _ _ => ?_⟩
  · simp [htraced]
  · simp [htraced]
  · rw [hread]
    exact ⟨rfl, Nat.zero_le i⟩

/-- The first block is refused: only its own entry is read. -/
theorem blockSafe_iff_of_badBlock (hrange : (inode.toNat : Int) < fs.inodeCount.toInt)
    (hinode : ¬fs.inodeCount ≤ inode) (hblock : fs.badBlock inode (offset.toNat / 4096) = true) :
    fs.BlockSafe inode offset length ↔ offset.toNat < 1023 * 4096 := by
  have hread : fs.readData inode offset length = ⟨minusOne, []⟩ := by
    simp [readData, unreadable, hblock]
  have htraced : fs.tracedReadData inode offset length =
      ⟨⟨minusOne, []⟩, [offset.toNat / 4096], []⟩ := by
    simp [tracedReadData, hinode, hblock]
  constructor
  · intro h
    have hentry := h.inTable (offset.toNat / 4096) (by simp [htraced])
    omega
  · intro hoffset
    refine ⟨by simp [htraced], fun e hmem => ?_, fun h => absurd hrange h, fun i _ _ _ => ?_⟩
    · obtain rfl : e = offset.toNat / 4096 := by simpa [htraced] using hmem
      omega
    · rw [hread]
      exact ⟨rfl, Nat.zero_le i⟩

end Refused

/-- **Block safety.**  On an image whose `inode_count` is not negative, a call of `read_data`
is block-safe exactly if its inode number is out of range or the read is safe. -/
theorem blockSafe_iff (fs : FileSystem) (hcount : 0 ≤ fs.inodeCount.toInt)
    (inode offset length : Word) :
    fs.BlockSafe inode offset length ↔
      fs.inodeCount ≤ inode ∨ fs.SafeToRead inode offset length := by
  by_cases hinode : fs.inodeCount ≤ inode
  · exact iff_of_true (blockSafe_of_inodeCount_le hinode) (Or.inl hinode)
  rw [or_iff_right hinode]
  have htoNat : fs.inodeCount.toInt = fs.inodeCount.toNat := BitVec.toInt_eq_toNat_of_msb
    (by rw [BitVec.msb_eq_toInt]; simpa using hcount)
  have hrange : (inode.toNat : Int) < fs.inodeCount.toInt := by
    rw [BitVec.le_def] at hinode
    omega
  unfold SafeToRead
  cases hblock : fs.badBlock inode (offset.toNat / 4096) with
  | true =>
    rw [blockSafe_iff_of_badBlock hrange hinode hblock]
    exact (and_iff_left (Or.inl rfl)).symm
  | false =>
    rw [blockSafe_iff_of_readable hrange hinode hblock]
    exact and_congr_right fun _ => (or_iff_right Bool.false_ne_true).symm

end FileSystem

/-- An image of one file `a` of one byte, whose block number is -1. -/
def strayImage : FileSystem where
  bootBlock := 0x420000
  mem := fun a =>
    match (a - 0x420000).toNat with
    | 0 | 4 | 8 => 1
    | 64 => 0x61
    | 96 => 2
    | 4096 => 1
    | 4100 | 4101 | 4102 | 4103 => 0xFF
    | _ => 0

theorem blockSafe_strayImage :
    strayImage.BlockSafe 0 0 1 ↔ strayImage.inodeCount ≤ 0 ∨ strayImage.SafeToRead 0 0 1 :=
  strayImage.blockSafe_iff (by decide +kernel) 0 0 1

/-- The byte is copied from before the data blocks, and `read_data` returns 1. -/
theorem copied_strayImage :
    ¬∀ (fs : FileSystem) (inode offset length : Word), 0 ≤ fs.inodeCount.toInt →
      0 ≤ fs.dataCount.toInt → fs.BlockSafe inode offset length := by
  intro hall
  have hsafe := hall strayImage 0 0 1 (by decide +kernel) (by decide +kernel)
  have hblock := hsafe.copied (-1) (by decide +kernel)
  exact absurd hblock.1 (by decide)

end LinuxLikeOS
