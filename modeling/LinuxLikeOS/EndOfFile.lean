import LinuxLikeOS.FileReads

/-! # Reads past the end of a file

A read that asks for more than is left is to return and store what is left.  `read_data` finds
the end by counting up to it, and it checks the block of a position before it asks whether the
position is the end.  So what it makes of the end depends on a block number that the file may
not use: the one behind the last block where the length is a multiple of 4096.  A read that
starts behind the end never meets it, and goes on.

`stopsAtEnd_iff` says for which files and offsets the end is found.
-/
namespace LinuxLikeOS
open CountedLoop
namespace FileSystem
variable (fs : FileSystem)

/-- What is left of the file from `offset` on is returned and stored. -/
structure StopsAtEnd (inode offset length : Word) : Prop where
  ret : (fs.readData inode offset length).ret =
    BitVec.ofNat 32 ((fs.inodeLength inode).toNat - offset.toNat)
  stored : (fs.readData inode offset length).stored = (fs.fileContents inode).drop offset.toNat

/-- The read starts inside the file or at its end, and if the length is a multiple of 4096 the
next entry of the table happens to be below `data_count`; or it starts behind the end, is
empty, and this is so of the entry it starts at. -/
def EndSeen (inode offset length : Word) : Prop :=
  let len := (fs.inodeLength inode).toNat
  if offset.toNat ≤ len then len % 4096 = 0 → fs.badBlock inode (len / 4096) = false
  else length = 0 ∧ fs.badBlock inode (offset.toNat / 4096) = false

instance (inode offset length : Word) : Decidable (fs.EndSeen inode offset length) :=
  inferInstanceAs (Decidable (ite _ _ _))

variable {fs} {inode offset length : Word}

theorem ValidFile.unreadable_eq (hfile : fs.ValidFile inode) :
    fs.unreadable inode offset = fs.badBlock inode (offset.toNat / 4096) := by
  have hinode : ¬fs.inodeCount ≤ inode := by
    have hlt := BitVec.lt_def.mp hfile.inTable
    rw [BitVec.le_def]
    omega
  simp [unreadable, hinode]

/-- The entry at a position inside the file passes the check. -/
theorem ValidFile.goodBlock (hfile : fs.ValidFile inode) {p : Nat}
    (hp : p < (fs.inodeLength inode).toNat) : fs.badBlock inode (p / 4096) = false :=
  hfile.covered _ (by omega)

/-- The loop gets as far as the end. -/
theorem leading_toEnd (hfile : fs.ValidFile inode)
    (hle : offset.toNat ≤ (fs.inodeLength inode).toNat)
    (hpast : (fs.inodeLength inode).toNat < offset.toNat + length.toNat) :
    leading (fs.holdsByte inode offset) length.toNat 0 =
      (fs.inodeLength inode).toNat - offset.toNat := by
  have hend : ∀ i, offset.toNat + i ≤ (fs.inodeLength inode).toNat →
      (BitVec.ofNat 32 i + offset = fs.inodeLength inode ↔
        offset.toNat + i = (fs.inodeLength inode).toNat) := by
    intro i hi
    have hlt := (fs.inodeLength inode).isLt
    have hsum : (BitVec.ofNat 32 i + offset).toNat = offset.toNat + i := by
      simp only [BitVec.toNat_add, BitVec.toNat_ofNat]
      omega
    rw [← BitVec.toNat_inj, hsum]
  refine leading_eq_iff.mpr ⟨by omega, fun j hj => ?_, fun _ => ?_⟩
  · have hnot : BitVec.ofNat 32 j + offset ≠ fs.inodeLength inode := by
      rw [ne_eq, hend j (by omega)]
      omega
    rw [Nat.zero_add, holdsByte, hfile.goodBlock (by omega)]
    simpa using hnot
  · have hat : BitVec.ofNat 32 ((fs.inodeLength inode).toNat - offset.toNat) + offset =
        fs.inodeLength inode := (hend _ (by omega)).mpr (by omega)
    rw [Nat.zero_add, holdsByte, hat]
    simp

/-- **A read from inside the file, or its end**, stores what is left; the entry at the end
decides what it returns. -/
theorem readData_toEnd (hfile : fs.ValidFile inode)
    (hle : offset.toNat ≤ (fs.inodeLength inode).toNat)
    (hpast : (fs.inodeLength inode).toNat < offset.toNat + length.toNat) :
    fs.readData inode offset length =
      ⟨if fs.badBlock inode ((fs.inodeLength inode).toNat / 4096) then minusOne
        else BitVec.ofNat 32 ((fs.inodeLength inode).toNat - offset.toNat),
        (fs.fileContents inode).drop offset.toNat⟩ := by
  have hcount := leading_toEnd hfile hle hpast
  have hstart := Nat.div_add_mod' offset.toNat 4096
  have hindex : offset.toNat % 4096 ≤ 4096 := Nat.le_of_lt (Nat.mod_lt _ (by decide))
  have hret := ret_readLoop_eq fs inode offset length.toNat 0 hstart hindex
  have hstored := stored_readLoop fs inode offset length.toNat 0 hstart hindex
  have hshort : (fs.inodeLength inode).toNat - offset.toNat < length.toNat := by omega
  have hat : offset.toNat + ((fs.inodeLength inode).toNat - offset.toNat) =
      (fs.inodeLength inode).toNat := by omega
  simp only [hcount, Nat.zero_add, hshort, hat, true_and] at hret hstored
  have hleft : (fs.fileContents inode).drop offset.toNat =
      ((fs.fileContents inode).drop offset.toNat).take
        ((fs.inodeLength inode).toNat - offset.toNat) := by
    rw [List.take_of_length_le]
    rw [List.length_drop, length_fileContents]
  rw [readData, hfile.unreadable_eq, hleft, fileContents_slice hat.le]
  by_cases hfirst : fs.badBlock inode (offset.toNat / 4096) = true
  · -- only a read that starts at the end can meet a bad block first
    obtain hend : offset.toNat = (fs.inodeLength inode).toNat := by
      by_contra hne
      rw [hfile.goodBlock (by omega)] at hfirst
      cases hfirst
    rw [hend] at hfirst
    rw [hend, if_pos hfirst, if_pos hfirst, Nat.sub_self]
    rfl
  · rw [if_neg hfirst, ← hret, ← hstored]

/-- A read from behind the end stores a byte, unless it is refused or empty. -/
theorem readData_behind (hfile : fs.ValidFile inode)
    (hbehind : (fs.inodeLength inode).toNat < offset.toNat) :
    (fs.readData inode offset length).stored = [] ↔
      fs.badBlock inode (offset.toNat / 4096) = true ∨ length = 0 := by
  have hfirst : fs.badBlock inode (offset.toNat / 4096) = false →
      fs.holdsByte inode offset 0 = true := by
    intro hblock
    have hne : BitVec.ofNat 32 0 + offset ≠ fs.inodeLength inode := by
      rw [BitVec.zero_add]
      rintro rfl
      exact Nat.lt_irrefl _ hbehind
    rw [holdsByte, Nat.add_zero, hblock]
    simpa using hne
  have hempty : length.toNat = 0 ↔ length = 0 := by
    rw [← BitVec.toNat_inj]
    rfl
  rw [← List.length_eq_zero_iff, length_readData, hfile.unreadable_eq]
  by_cases hblock : fs.badBlock inode (offset.toNat / 4096) = true
  · rw [if_pos hblock]
    exact iff_of_true rfl (Or.inl hblock)
  · have hgood := Bool.eq_false_iff.mpr hblock
    rw [if_neg hblock, leading_eq_zero_iff, hfirst hgood, hempty, or_iff_left (by simp),
      or_iff_right hblock]

/-- **Reads past the end.**  A read of a valid file that asks for more than is left returns
and stores what is left, exactly if the end is seen. -/
theorem stopsAtEnd_iff (hfile : fs.ValidFile inode)
    (hpast : (fs.inodeLength inode).toNat < offset.toNat + length.toNat) :
    fs.StopsAtEnd inode offset length ↔ fs.EndSeen inode offset length := by
  have hshort : ∀ n, n ≤ (fs.inodeLength inode).toNat → minusOne ≠ BitVec.ofNat 32 n := by
    intro n hn heq
    have hlen := hfile.length_le
    have hnat := congrArg BitVec.toNat heq
    have hminus : minusOne.toNat = 2 ^ 32 - 1 := by decide
    rw [hminus, BitVec.toNat_ofNat] at hnat
    omega
  unfold EndSeen
  dsimp only
  by_cases hle : offset.toNat ≤ (fs.inodeLength inode).toNat
  · rw [if_pos hle]
    have hread := readData_toEnd hfile hle hpast
    constructor
    · rintro ⟨hret, _⟩ _
      rw [hread] at hret
      by_contra hbad
      rw [if_pos (by simpa using hbad)] at hret
      exact hshort _ (Nat.sub_le ..) hret
    · intro hseen
      have hgood : fs.badBlock inode ((fs.inodeLength inode).toNat / 4096) = false := by
        by_cases hmod : (fs.inodeLength inode).toNat % 4096 = 0
        · exact hseen hmod
        · exact hfile.covered _ (by omega)
      rw [if_neg (by simp [hgood])] at hread
      exact ⟨by rw [hread], by rw [hread]⟩
  · rw [if_neg hle]
    have hnone : (fs.inodeLength inode).toNat - offset.toNat = 0 := by omega
    have hleft : (fs.fileContents inode).drop offset.toNat = [] :=
      List.drop_eq_nil_of_le (by rw [length_fileContents]; omega)
    have hbehind : (fs.inodeLength inode).toNat < offset.toNat := by omega
    have hstored : (fs.readData inode offset length).stored = [] ↔ _ :=
      readData_behind hfile hbehind
    constructor
    · rintro ⟨hret, hempty⟩
      have hgood : fs.badBlock inode (offset.toNat / 4096) = false := by
        by_contra hbad
        rw [readData_of_unreadable length (hfile.unreadable_eq.trans (by simpa using hbad)),
          hnone] at hret
        exact hshort 0 (Nat.zero_le _) hret
      rw [hleft, hstored, hgood] at hempty
      exact ⟨hempty.resolve_left Bool.false_ne_true, hgood⟩
    · rintro ⟨hlength, hgood⟩
      have hempty := hstored.mpr (Or.inr hlength)
      refine ⟨?_, hempty.trans hleft.symm⟩
      rw [hnone]
      exact readData_ret_of_empty length (hfile.unreadable_eq.trans hgood) hempty

end FileSystem

theorem stopsAtEnd_shellImage :
    shellImage.StopsAtEnd 0 4 100 ↔ shellImage.EndSeen 0 4 100 := by
  have hlength : (shellImage.inodeLength 0).toNat = 28 := by decide +kernel
  have hfile : shellImage.ValidFile 0 := by
    refine ⟨by decide +kernel, by decide +kernel, fun n hn => ?_⟩
    obtain rfl : n = 0 := by omega
    decide +kernel
  exact FileSystem.stopsAtEnd_iff hfile (by rw [hlength]; decide)

/-- An image of one file, of one full block; the entry behind it is 9. -/
def fullBlockImage : FileSystem where
  bootBlock := 0x420000
  mem := fun a =>
    match (a - 0x420000).toNat with
    | 0 | 4 | 8 => 1
    | 64 => 0x61
    | 96 => 2
    | 4097 => 0x10
    | 4104 => 9
    | _ => 0

/-- After the whole block is read, the next read returns -1. -/
theorem refused_fullBlockImage :
    ¬∀ (fs : FileSystem) (inode offset length : Word), fs.ValidFile inode →
      (fs.inodeLength inode).toNat < offset.toNat + length.toNat →
      offset.toNat + length.toNat < 2 ^ 32 → fs.StopsAtEnd inode offset length := by
  intro hall
  have hlength : (fullBlockImage.inodeLength 0).toNat = 4096 := by decide +kernel
  have hfile : fullBlockImage.ValidFile 0 := by
    refine ⟨by decide +kernel, by decide +kernel, fun n hn => ?_⟩
    obtain rfl : n = 0 := by omega
    decide +kernel
  have hstops := hall fullBlockImage 0 4096 1 hfile (by rw [hlength]; decide) (by decide)
  exact absurd hstops.ret (by decide +kernel)

end LinuxLikeOS
