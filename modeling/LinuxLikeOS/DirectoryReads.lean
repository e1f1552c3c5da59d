import LinuxLikeOS.FileReads
import LinuxLikeOS.TerminatedText

/-! # Enumerating the directory

`directory_read` copies the entry at the descriptor's position to its stack, measures the
name with `strlen`, cuts the length at 32, copies so many bytes to the caller and moves the
position on.  A name of 32 bytes has no NUL: `strlen` runs on into the file type, whose
second byte is zero for the types there are, and the cut makes 32 of it.

`directoryReadBytes` is the call with these loops; on a valid directory it does what
`directoryRead` does with names as strings.  So the calls on a fresh descriptor return the
names in the order of the entries, and 0 from then on.  And each name leads
`read_dentry_by_name` to its entry, since what `strncmp` compares are the texts in the two
arrays.
-/
namespace LinuxLikeOS
open CountedLoop TerminatedText

/-! ## Byte by byte -/

/-- `strncpy(dest, src, n)`: what it leaves in `dest`, the text at `src` and then NULs. -/
def strncpy (src : Nat → Byte) (n : Nat) : List Byte :=
  let copied := text 0 src n 0
  copied ++ List.replicate (n - copied.length) 0

/-- `strlen` of the text at `s`, if its NUL is among the first `n` bytes. -/
def strlenWithin (s : Nat → Byte) (n : Nat) : Option Nat :=
  let length := leading (fun j => s j != 0) n 0
  if length < n then some length else none

/-- `bytes_read` of `directory_read`, by what `strlen` returns. -/
def clampName (length : Nat) : Nat := if length ≥ 32 then 32 else length

namespace FileSystem
variable (fs : FileSystem)

/-- The bytes of the entry at `a`. -/
def entryByte (a : Word) (j : Nat) : Byte := fs.mem (a + BitVec.ofNat 32 j)

/-- The first 40 bytes of the `dentry_t` that `read_dentry_by_index` fills in from the entry
at `a`: the name by `strncpy`, then the file type and the inode number. -/
def filledEntry (a : Word) (j : Nat) : Byte :=
  if j < 32 then (strncpy (fs.entryByte a) 32).getD j 0 else fs.entryByte a j

end FileSystem

/-- `directory_read`, with its copies.  If `strlen` finds no NUL in the bytes that have been
filled in, it goes on over the stack, and nothing is said about the call. -/
def directoryReadBytes (fs : FileSystem) (k : Kernel) (slot : Byte) (i : Fin 8) (buf : Word) :
    CallResult :=
  if buf = 0 then .returns k minusOne []
  else
    let index := ((k.pcb slot).fd i).filePosition
    if index < fs.dirCount then
      let entry := fs.filledEntry (fs.direntry index.toNat)
      match strlenWithin entry 40 with
      | none => ⟨k, none, [], [(slot, i)]⟩
      | some length =>
        let bytesRead := clampName length
        ⟨k.advance slot i 1, some (BitVec.ofNat 32 bytesRead), strncpy entry bytesRead,
          [(slot, i)]⟩
    else .returns k 0 [(slot, i)]

section Bytes
variable {fs : FileSystem} {a : Word}

/-- The name of an entry is the text in its first 32 bytes. -/
theorem nameAt_bytes (fs : FileSystem) (a : Word) :
    (fs.nameAt a).bytes = text 0 (fs.entryByte a) 32 0 := by
  rw [text_eq_takeWhile, ← List.range_eq_range']
  rfl

theorem strlen_nameAt_le (fs : FileSystem) (a : Word) : (fs.nameAt a).strlen ≤ 32 := by
  rw [CString.strlen, nameAt_bytes]
  exact length_text_le _ 32 0

/-- The copy of the name on the stack is the name with NULs behind it. -/
theorem filledEntry_name (fs : FileSystem) (a : Word) {j : Nat} (hj : j < 32) :
    fs.filledEntry a j = (fs.nameAt a).get j := by
  have hcopy : strncpy (fs.entryByte a) 32 =
      (fs.nameAt a).bytes ++ List.replicate (32 - (fs.nameAt a).bytes.length) 0 := by
    rw [strncpy, ← nameAt_bytes]
  rw [FileSystem.filledEntry, if_pos hj, hcopy, getD_append_replicate]
  rfl

/-- The text on the stack is the name. -/
theorem text_filledEntry (fs : FileSystem) (a : Word) :
    text 0 (fs.filledEntry a) 32 0 = (fs.nameAt a).bytes := by
  have hget : ∀ j, j < 32 → fs.filledEntry a (0 + j) = (fs.nameAt a).get (0 + j) := by
    intro j hj
    rw [Nat.zero_add]
    exact filledEntry_name fs a hj
  rw [text_congr hget]
  exact text_getD (fs.nameAt a).noNul (strlen_nameAt_le fs a)

/-- **The clamped length is the length of the name**, if a NUL is found. -/
theorem clampName_strlen {length : Nat} (h : strlenWithin (fs.filledEntry a) 40 = some length) :
    clampName length = (fs.nameAt a).strlen := by
  have hname : leading (fun j => fs.filledEntry a j != 0) 32 0 = (fs.nameAt a).strlen := by
    rw [← length_text, text_filledEntry, CString.strlen]
  simp only [strlenWithin] at h
  split at h
  · obtain rfl := Option.some.inj h
    obtain ⟨hle, hpass, hstop⟩ := leading_eq_iff.mp hname
    by_cases hfull : (fs.nameAt a).strlen < 32
    · -- the NUL is in the name, where the longer loop meets it too
      have hsame : leading (fun j => fs.filledEntry a j != 0) 40 0 = (fs.nameAt a).strlen :=
        leading_eq_iff.mpr ⟨by omega, hpass, fun _ => hstop hfull⟩
      rw [hsame, clampName, if_neg (by omega)]
    · have hlong : ¬leading (fun j => fs.filledEntry a j != 0) 40 0 < 32 := by
        intro hlt
        have hnul := leading_stop (p := fun j => fs.filledEntry a j != 0) (n := 40) (i := 0)
          (by omega)
        rw [Nat.zero_add] at hnul
        have hpassed := hpass (leading (fun j => fs.filledEntry a j != 0) 40 0) (by omega)
        rw [Nat.zero_add, hnul] at hpassed
        cases hpassed
      rw [clampName, if_pos (by omega)]
      omega
  · cases h

/-- The second byte of the file types there are. -/
theorem entryByte_33 (htype : (fs.dentryAt a).filetype.toNat ≤ 2) : fs.entryByte a 33 = 0 := by
  have hword : (fs.dentryAt a).filetype.extractLsb' 8 8 = fs.entryByte a 33 := by
    refine (loadWord_byte1 fs.mem (a + 32)).trans ?_
    rw [BitVec.add_assoc]
    rfl
  rw [← hword]
  apply BitVec.eq_of_toNat_eq
  rw [BitVec.extractLsb'_toNat, Nat.shiftRight_eq_div_pow, Nat.div_eq_of_lt (by omega)]
  rfl

/-- The file types end a name that fills its array. -/
theorem strlenWithin_filledEntry (htype : (fs.dentryAt a).filetype.toNat ≤ 2) :
    ∃ length, strlenWithin (fs.filledEntry a) 40 = some length := by
  have hnul : fs.filledEntry a 33 = 0 := by
    rw [FileSystem.filledEntry, if_neg (by decide), entryByte_33 htype]
  refine ⟨leading (fun j => fs.filledEntry a j != 0) 40 0, ?_⟩
  refine if_pos ?_
  by_contra hall
  have hpass := leading_pass (p := fun j => fs.filledEntry a j != 0) (n := 40) (i := 0) (j := 33)
    (by omega)
  simp [hnul] at hpass

end Bytes

/-! ## On a valid directory -/

namespace FileSystem
variable (fs : FileSystem)

/-- At most 63 entries, of the three file types, with distinct names that are not empty. -/
structure ValidDirectory : Prop where
  count : fs.dirCount.toNat ≤ 63
  types : ∀ j, j < fs.dirCount.toNat → (fs.dentryAt (fs.direntry j)).filetype.toNat ≤ 2
  named : ∀ j, j < fs.dirCount.toNat → (fs.nameAt (fs.direntry j)).bytes ≠ []
  distinct : ∀ i j, i < fs.dirCount.toNat → j < fs.dirCount.toNat →
    fs.nameAt (fs.direntry i) = fs.nameAt (fs.direntry j) → i = j

/-- What a call at position `j` returns and stores: a name with its length, or 0. -/
def answerAt (j : Nat) : Option Word × List Byte :=
  if j < fs.dirCount.toNat then
    (some (BitVec.ofNat 32 (fs.nameAt (fs.direntry j)).strlen), (fs.nameAt (fs.direntry j)).bytes)
  else (some 0, [])

end FileSystem

/-- Calls of `directory_read` on descriptor `i`, one for each buffer. -/
def directoryReads (fs : FileSystem) (k : Kernel) (i : Fin 8) (bufs : List Word) :
    Kernel × List CallResult :=
  callEach (fun k buf => directoryReadBytes fs k k.guessedSlot i buf) k bufs

section Calls
variable {fs : FileSystem} {k : Kernel} {i : Fin 8}

/-- A copy of as many bytes as the name has is the name. -/
theorem strncpy_filledEntry (fs : FileSystem) (a : Word) :
    strncpy (fs.filledEntry a) (fs.nameAt a).strlen = (fs.nameAt a).bytes := by
  have htext : text 0 (fs.filledEntry a) (fs.nameAt a).strlen 0 = (fs.nameAt a).bytes := by
    have hget : ∀ j, j < (fs.nameAt a).strlen →
        fs.filledEntry a (0 + j) = (fs.nameAt a).get (0 + j) := by
      intro j hj
      have hle := strlen_nameAt_le fs a
      rw [Nat.zero_add]
      exact filledEntry_name fs a (by omega)
    rw [text_congr hget]
    exact text_getD (fs.nameAt a).noNul (Nat.le_refl _)
  rw [strncpy, htext, CString.strlen, Nat.sub_self, List.replicate_zero, List.append_nil]

/-- **On a valid directory the copies do what the call does with names as strings.** -/
theorem directoryReadBytes_eq (hdir : fs.ValidDirectory) (slot : Byte) (buf : Word) :
    directoryReadBytes fs k slot i buf = directoryRead fs k slot i buf := by
  unfold directoryReadBytes directoryRead FileSystem.readDentryByIndex
  split
  · rfl
  · dsimp only
    split
    · rename_i hlt
      obtain ⟨length, hlength⟩ := strlenWithin_filledEntry (hdir.types _ (BitVec.lt_def.mp hlt))
      rw [hlength]
      simp only [clampName_strlen hlength, strncpy_filledEntry]
      rfl
    · rfl

/-- One call, by the position of its descriptor. -/
theorem directoryReadBytes_at (hdir : fs.ValidDirectory) (slot : Byte) {buf : Word}
    (hbuf : buf ≠ 0) :
    let j := ((k.pcb slot).fd i).filePosition.toNat
    let r := directoryReadBytes fs k slot i buf
    (r.ret, r.stored) = fs.answerAt j ∧
      r.kernel = if j < fs.dirCount.toNat then k.advance slot i 1 else k := by
  intro j r
  have hr : r = directoryRead fs k slot i buf := directoryReadBytes_eq hdir slot buf
  rw [hr]
  by_cases hlt : j < fs.dirCount.toNat
  · have hindex : fs.readDentryByIndex ((k.pcb slot).fd i).filePosition =
        some (fs.dentryAt (fs.direntry j)) := if_pos (BitVec.lt_def.mpr hlt)
    simp only [directoryRead, if_neg hbuf, hindex, if_pos hlt, FileSystem.answerAt]
    exact ⟨rfl, trivial⟩
  · have hindex : fs.readDentryByIndex ((k.pcb slot).fd i).filePosition = none :=
      if_neg fun h => hlt (BitVec.lt_def.mp h)
    simp only [directoryRead, if_neg hbuf, hindex, if_neg hlt, FileSystem.answerAt]
    exact ⟨rfl, rfl⟩

/-- The calls go through the positions from the descriptor's on. -/
theorem directoryReads_from (hdir : fs.ValidDirectory) {bufs : List Word}
    (hbufs : ∀ buf ∈ bufs, buf ≠ 0) :
    (directoryReads fs k i bufs).2.map (fun c => (c.ret, c.stored)) =
      (List.range bufs.length).map fun m =>
        fs.answerAt (((k.pcb k.guessedSlot).fd i).filePosition.toNat + m) := by
  induction bufs generalizing k with
  | nil => rfl
  | cons buf bufs ih =>
    obtain ⟨hanswer, hkernel⟩ := directoryReadBytes_at (k := k) (i := i) hdir k.guessedSlot
      (hbufs buf List.mem_cons_self)
    have hrest := ih (k := (directoryReadBytes fs k k.guessedSlot i buf).kernel)
      fun b hb => hbufs b (List.mem_cons_of_mem _ hb)
    simp only [directoryReads, callEach, List.map_cons, List.length_cons, List.range_succ_eq_map,
      List.map_map] at hrest ⊢
    rw [hanswer, hrest, hkernel, Nat.add_zero]
    refine congrArg _ (List.map_congr_left fun m _ => ?_)
    split
    · -- a name has been returned, and the position is one further
      rename_i hlt
      have hcount := hdir.count
      have hslot : (k.advance k.guessedSlot i 1).guessedSlot = k.guessedSlot := rfl
      have hnext : (((k.pcb k.guessedSlot).fd i).filePosition + 1).toNat =
          ((k.pcb k.guessedSlot).fd i).filePosition.toNat + 1 := by
        rw [BitVec.toNat_add]
        exact Nat.mod_eq_of_lt (show _ + 1 < 2 ^ 32 by omega)
      rw [hslot, pcb_advance, hnext, Nat.add_assoc, Nat.add_comm 1 m]
      rfl
    · -- the directory is at its end, and so it stays
      rename_i hge
      simp only [FileSystem.answerAt, Function.comp_apply]
      rw [if_neg (by omega), if_neg (by omega)]

end Calls

/-! ## Names lead back to their entries -/

section Names
variable {fs : FileSystem}

/-- **`strncmp` compares the texts in the two arrays.** -/
theorem strncmp_eq_zero_iff (s t : Nat → Byte) (n i : Nat) :
    strncmp s t n i = 0 ↔ text 0 s n i = text 0 t n i := by
  induction n generalizing i with
  | zero => simp [strncmp, text]
  | succ n ih =>
    simp only [strncmp]
    by_cases hstop : s i ≠ t i ∨ s i = 0
    · rw [if_pos hstop, sub_eq_zero, BitVec.toInt_inj]
      by_cases hst : s i = t i
      · -- both texts end here
        have hs : s i = 0 := hstop.resolve_left fun hne => hne hst
        rw [text_end hs, text_end (hst.symm.trans hs)]
        exact iff_of_true hst rfl
      · refine iff_of_false hst fun htext => ?_
        by_cases hs : s i = 0
        · have ht : t i ≠ 0 := fun ht => hst (hs.trans ht.symm)
          rw [text_end hs, text_entry ht] at htext
          cases htext
        · by_cases ht : t i = 0
          · rw [text_entry hs, text_end ht] at htext
            cases htext
          · rw [text_entry hs, text_entry ht] at htext
            exact hst (List.cons.inj htext).1
    · obtain ⟨hst, hs⟩ := not_or.mp hstop
      have hst : s i = t i := not_not.mp hst
      have ht : t i ≠ 0 := fun ht => hs (hst.trans ht)
      rw [if_neg hstop, text_entry hs, text_entry ht, hst, ih, List.cons.injEq]
      exact (and_iff_right rfl).symm

/-- The test of `read_dentry_by_name`. -/
theorem nameMatches_iff {fname : CString} (hlen : fname.strlen ≤ 32) (a : Word) :
    fs.nameMatches fname a = true ↔ fname = fs.nameAt a := by
  have htext : text 0 fname.get 32 0 = fname.bytes := text_getD fname.noNul hlen
  have hname : text 0 (fun j => fs.mem (a + BitVec.ofNat 32 j)) 32 0 = (fs.nameAt a).bytes :=
    (nameAt_bytes fs a).symm
  have hbytes : fname.bytes = (fs.nameAt a).bytes ↔ fname = fs.nameAt a := by
    constructor
    · intro h
      cases fname
      cases hname' : fs.nameAt a
      simp_all
    · exact fun h => congrArg CString.bytes h
  rw [FileSystem.nameMatches, decide_eq_true_iff, strncmp_eq_zero_iff, htext, hname, hbytes]
  exact and_iff_left hlen

/-- The loop finds the first entry with the name. -/
theorem findDentry_eq {fname : CString} {n i j : Nat} (hij : i ≤ j) (hj : j < i + n)
    (hmatch : fs.nameMatches fname (fs.direntry j) = true)
    (hbefore : ∀ m, i ≤ m → m < j → fs.nameMatches fname (fs.direntry m) = false) :
    fs.findDentry fname n i = some (fs.dentryAt (fs.direntry j)) := by
  induction n generalizing i with
  | zero => omega
  | succ n ih =>
    rw [FileSystem.findDentry]
    by_cases heq : i = j
    · rw [heq, if_pos hmatch]
    · rw [if_neg (by rw [hbefore i (Nat.le_refl i) (by omega)]; decide)]
      exact ih (by omega) (by omega) fun m hm => hbefore m (by omega)

/-- **Each name leads to its entry.** -/
theorem readDentryByName_nameAt (hdir : fs.ValidDirectory) {j : Nat}
    (hj : j < fs.dirCount.toNat) :
    fs.readDentryByName (fs.nameAt (fs.direntry j)) = some (fs.dentryAt (fs.direntry j)) := by
  have hcount := hdir.count
  have hint : fs.dirCount.toInt.toNat = fs.dirCount.toNat := by
    rw [BitVec.toInt_eq_toNat_of_lt (by omega), Int.toNat_natCast]
  have hlen := strlen_nameAt_le fs (fs.direntry j)
  rw [FileSystem.readDentryByName, hint]
  refine findDentry_eq (Nat.zero_le j) (by omega) ((nameMatches_iff hlen _).mpr rfl) ?_
  intro m _ hm
  rw [← Bool.not_eq_true, nameMatches_iff hlen]
  intro hname
  have := hdir.distinct j m hj (by omega) hname
  omega

end Names

/-! ## The enumeration -/

section Enumeration
variable {fs : FileSystem} {k : Kernel} {i : Fin 8}

/-- What `open` of a directory leaves behind. -/
theorem open_directory {fname : CString} {entry : Dentry} {fd : Word}
    (hfound : fs.readDentryByName fname = some entry) (hdirectory : entry.filetype = 1)
    (hopen : (Syscall.open fs k (some fname)).ret = some fd) (hfd : fdIndex fd = some i) :
    (Syscall.open fs k (some fname)).kernel =
      k.setFd k.executingSlot i ⟨some .directory, 0, 0, 1⟩ := by
  have hzero : entry.filetype ≠ 0 := by
    rw [hdirectory]
    decide
  have hentry : openedEntry entry = ⟨some .directory, 0, 0, 1⟩ := by
    rw [openedEntry, if_neg hzero, if_pos hdirectory]
  rw [open_found hfound hopen hfd, if_neg hzero, hentry]

/-- **Directory enumeration.**  A process opens a directory and reads it while
`get_current_pid` finds it: call `j` returns the name of entry `j` and its length, which is
between 1 and 32, and all calls after the last entry return 0.  Each name leads
`read_dentry_by_name` to its entry. -/
theorem directoryReads_enumerate {fname : CString} {entry : Dentry} {fd : Word}
    (hdir : fs.ValidDirectory) (hfound : fs.readDentryByName fname = some entry)
    (hdirectory : entry.filetype = 1) (hguess : k.guessedSlot = k.executingSlot)
    (hopen : (Syscall.open fs k (some fname)).ret = some fd) (hfd : fdIndex fd = some i)
    {bufs : List Word} (hbufs : ∀ buf ∈ bufs, buf ≠ 0) :
    (directoryReads fs (Syscall.open fs k (some fname)).kernel i bufs).2.map
        (fun c => (c.ret, c.stored)) = (List.range bufs.length).map fs.answerAt ∧
      ∀ j, j < fs.dirCount.toNat →
        0 < (fs.nameAt (fs.direntry j)).strlen ∧ (fs.nameAt (fs.direntry j)).strlen ≤ 32 ∧
        fs.readDentryByName (fs.nameAt (fs.direntry j)) = some (fs.dentryAt (fs.direntry j)) := by
  constructor
  · rw [open_directory hfound hdirectory hopen hfd, directoryReads_from hdir hbufs]
    have hslot : (k.setFd k.executingSlot i ⟨some .directory, 0, 0, 1⟩).guessedSlot =
        k.executingSlot := hguess
    rw [hslot]
    simp [Kernel.setFd, Kernel.setPcb]
  · intro j hj
    refine ⟨?_, strlen_nameAt_le fs _, readDentryByName_nameAt hdir hj⟩
    exact List.length_pos_iff.mpr (hdir.named j hj)

end Enumeration

/-- An image with a directory, a shell and a file whose name fills its array. -/
def directoryImage : FileSystem where
  bootBlock := 0x420000
  mem := fun a =>
    let j := (a - 0x420000).toNat
    if 192 ≤ j ∧ j < 224 then 0x61
    else if 4096 ≤ j then shellImage.mem a
    else
      match j with
      | 0 => 3
      | 4 | 8 => 1
      | 64 => 0x2E
      | 96 => 1
      | 128 => 0x73
      | 129 => 0x68
      | 130 => 0x65
      | 131 | 132 => 0x6C
      | 160 | 224 => 2
      | _ => 0

theorem directoryImage_valid : directoryImage.ValidDirectory where
  count := by decide +kernel
  types := by decide +kernel
  named := by decide +kernel
  distinct := by
    have hcount : directoryImage.dirCount.toNat = 3 := by decide +kernel
    have hdistinct : ∀ i j : Fin 3, directoryImage.nameAt (directoryImage.direntry i) =
        directoryImage.nameAt (directoryImage.direntry j) → i = j := by decide +kernel
    intro i j hi hj hname
    rw [hcount] at hi hj
    exact congrArg Fin.val (hdistinct ⟨i, hi⟩ ⟨j, hj⟩ hname)

/-- The first shell opens the directory and reads it five times. -/
theorem directoryReads_directoryImage :
    let k := booted directoryImage zeroHardware noJunk ⟨0x7FFF00, 0x7FFF40⟩
    (directoryReads directoryImage (Syscall.open directoryImage k
      (some ⟨[0x2E], by decide⟩)).kernel 2 (List.replicate 5 0x8100000)).2.map
        (fun c => (c.ret, c.stored)) = (List.range 5).map directoryImage.answerAt ∧
      ∀ j, j < directoryImage.dirCount.toNat →
        0 < (directoryImage.nameAt (directoryImage.direntry j)).strlen ∧
        (directoryImage.nameAt (directoryImage.direntry j)).strlen ≤ 32 ∧
        directoryImage.readDentryByName (directoryImage.nameAt (directoryImage.direntry j)) =
          some (directoryImage.dentryAt (directoryImage.direntry j)) := by
  have hfound : directoryImage.readDentryByName ⟨[0x2E], by decide⟩ =
      some ⟨⟨[0x2E], by decide⟩, 1, 0⟩ := by decide +kernel
  have hfd : fdIndex 2 = some 2 := by decide
  exact directoryReads_enumerate directoryImage_valid hfound rfl (by decide +kernel)
    (by decide +kernel) hfd (by simp)

end LinuxLikeOS
