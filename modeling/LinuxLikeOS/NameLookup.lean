import LinuxLikeOS.DirectoryReads

/-! # Looking a name up

`read_dentry_by_name` compares with `strncmp`, asks for the length of the name, and copies the
entry's name with `strcpy`.  A name of 32 bytes has no NUL, so `strcpy` goes on into the file
type and writes behind the 32 bytes of `dentry->filename`, where the file type is stored next.
`read_dentry_by_index` copies with `strncpy` and pads.

Here both fill in a `dentry_t` byte by byte.  The names, types and inode numbers they leave
there are those of the entry, so a name is found exactly if an entry has it, and what is
filled in is what the index of the first such entry gives (`lookup_byName`).
-/
namespace LinuxLikeOS
open CountedLoop TerminatedText

/-! ## The copies -/

/-- `strcpy(dest, src)` from index `i` on.  If there is no NUL in `n` bytes, nothing is said. -/
def strcpy (src : Nat → Byte) : Nat → Nat → (Nat → Byte) → Option (Nat → Byte)
  | 0, _, _ => none
  | n + 1, i, dest =>
    if src i = 0 then some (Function.update dest i 0)
    else strcpy src n (i + 1) (Function.update dest i (src i))

/-- The name, file type and inode number in a `dentry_t`; the name ends at its NUL, or after
32 bytes. -/
def dentryIn (d : Nat → Byte) : Dentry where
  filename := CString.ofBytes ((List.range 32).map d)
  filetype := d 35 ++ d 34 ++ d 33 ++ d 32
  inodeNum := d 39 ++ d 38 ++ d 37 ++ d 36

namespace FileSystem
variable (fs : FileSystem)

/-- `dentry->filetype` and `dentry->inode_num` are stored from the entry at `a`. -/
def storeFields (a : Word) (d : Nat → Byte) : Nat → Byte :=
  fun j => if 32 ≤ j ∧ j < 40 then fs.entryByte a j else d j

/-- The loop of `read_dentry_by_name`, `n` entries from entry `i` on: what it returns, and
leaves in the `dentry_t`. -/
def findDentryInto (fname : CString) (d : Nat → Byte) : Nat → Nat → Option (Word × (Nat → Byte))
  | 0, _ => some (minusOne, d)
  | n + 1, i =>
    if fs.nameMatches fname (fs.direntry i) then
      (strcpy (fs.entryByte (fs.direntry i)) 40 0 d).map fun copied =>
        (0, fs.storeFields (fs.direntry i) copied)
    else findDentryInto fname d n (i + 1)

/-- `read_dentry_by_name`, with its copies. -/
def readDentryByNameInto (fname : CString) (d : Nat → Byte) : Option (Word × (Nat → Byte)) :=
  fs.findDentryInto fname d fs.dirCount.toInt.toNat 0

/-- `read_dentry_by_index`, with its copies. -/
def readDentryByIndexInto (index : Word) (d : Nat → Byte) : Word × (Nat → Byte) :=
  if index < fs.dirCount then
    (0, fun j => if j < 40 then fs.filledEntry (fs.direntry index.toNat) j else d j)
  else (minusOne, d)

/-- The entries below `dir_count` have the file types there are. -/
def TypesKnown : Prop :=
  ∀ j, j < fs.dirCount.toInt.toNat → (fs.dentryAt (fs.direntry j)).filetype.toNat ≤ 2

/-- Entry `j` is the first below `dir_count` with the name. -/
structure FirstNamed (fname : CString) (j : Nat) : Prop where
  below : j < fs.dirCount.toInt.toNat
  name : fs.nameAt (fs.direntry j) = fname
  first : ∀ m, m < j → fs.nameAt (fs.direntry m) ≠ fname

/-- What `read_dentry_by_name` is to return, and to make `d'` of the `dentry_t` `d`. -/
structure LookedUp (fname : CString) (d : Nat → Byte) (ret : Word) (d' : Nat → Byte) : Prop where
  found : ret = 0 ↔ fname.strlen ≤ 32 ∧
    ∃ j, j < fs.dirCount.toInt.toNat ∧ fs.nameAt (fs.direntry j) = fname
  /-- the name, file type and inode number that its index gives -/
  filled : ∀ j, fs.FirstNamed fname j → ∀ d₀, ∃ d₁,
    fs.readDentryByIndexInto (BitVec.ofNat 32 j) d₀ = (0, d₁) ∧ dentryIn d' = dentryIn d₁
  /-- no byte behind these is written -/
  behind : ∀ j, 40 ≤ j → d' j = d j
  refused : ret ≠ 0 → ret = minusOne ∧ d' = d

end FileSystem

section Copies
variable {fs : FileSystem} {a : Word}

/-- `strcpy` copies up to the NUL, and this too. -/
theorem strcpy_eq {src : Nat → Byte} {n i m : Nat} (h : leading (fun j => src j != 0) n i = m)
    (hm : m < n) (dest : Nat → Byte) :
    strcpy src n i dest = some fun j => if i ≤ j ∧ j ≤ i + m then src j else dest j := by
  induction n generalizing i m dest with
  | zero => cases hm
  | succ n ih =>
    rw [strcpy]
    by_cases hnul : src i = 0
    · obtain rfl : m = 0 := by simpa [leading, hnul] using h.symm
      rw [if_pos hnul]
      refine congrArg some (funext fun j => ?_)
      by_cases hj : j = i
      · rw [hj, Function.update_self, if_pos ⟨Nat.le_refl i, Nat.le_refl i⟩, hnul]
      · rw [Function.update_of_ne hj, if_neg (by omega)]
    · rw [leading, if_pos (by simpa using hnul)] at h
      rw [if_neg hnul, ih rfl (by omega)]
      refine congrArg some (funext fun j => ?_)
      by_cases hj : j = i
      · rw [hj, Function.update_self, if_neg (by omega), if_pos (by omega)]
      · rw [Function.update_of_ne hj]
        exact if_congr (by omega) rfl rfl

/-- The word in four bytes of an entry. -/
theorem entryWord (fs : FileSystem) (a : Word) (j : Nat) :
    fs.entryByte a (j + 3) ++ fs.entryByte a (j + 2) ++ fs.entryByte a (j + 1) ++
        fs.entryByte a j = loadWord fs.mem (a + BitVec.ofNat 32 j) := by
  simp only [loadWord, FileSystem.entryByte, BitVec.ofNat_add, BitVec.add_assoc]
  rfl

/-- A `dentry_t` with the text of the entry's name and its fields is the entry. -/
theorem dentryIn_eq {d : Nat → Byte}
    (hname : text 0 d 32 0 = text 0 (fs.entryByte a) 32 0)
    (hfields : ∀ j, 32 ≤ j → j < 40 → d j = fs.entryByte a j) :
    dentryIn d = fs.dentryAt a := by
  have hbytes : CString.ofBytes ((List.range 32).map d) = fs.nameAt a := by
    have hd : (CString.ofBytes ((List.range 32).map d)).bytes = text 0 d 32 0 := by
      rw [text_eq_takeWhile, ← List.range_eq_range']
      rfl
    rw [CString.mk.injEq, hd, hname, nameAt_bytes]
  have htype := entryWord fs a 32
  have hinode := entryWord fs a 36
  rw [dentryIn, FileSystem.dentryAt, hbytes, hfields 35 (by decide) (by decide),
    hfields 34 (by decide) (by decide), hfields 33 (by decide) (by decide),
    hfields 32 (by decide) (by decide), hfields 36 (by decide) (by decide),
    hfields 37 (by decide) (by decide), hfields 38 (by decide) (by decide),
    hfields 39 (by decide) (by decide), htype, hinode]
  rfl

/-- The NUL that `strcpy` stops at is in the name, or in the file type. -/
theorem leading_entryByte (htype : (fs.dentryAt a).filetype.toNat ≤ 2) :
    leading (fun j => fs.entryByte a j != 0) 40 0 ≤ 33 := by
  by_contra hlong
  have hpass := leading_pass (p := fun j => fs.entryByte a j != 0) (n := 40) (i := 0) (j := 33)
    (by omega)
  rw [Nat.zero_add, entryByte_33 htype] at hpass
  exact absurd hpass (by decide)

/-- **`strcpy` and the stores leave the entry**, and nothing behind its fields changes. -/
theorem strcpy_storeFields (htype : (fs.dentryAt a).filetype.toNat ≤ 2) (d : Nat → Byte) :
    ∃ copied, strcpy (fs.entryByte a) 40 0 d = some copied ∧
      dentryIn (fs.storeFields a copied) = fs.dentryAt a ∧
      ∀ j, 40 ≤ j → fs.storeFields a copied j = d j := by
  have hstop := leading_entryByte htype
  refine ⟨_, strcpy_eq rfl (Nat.lt_of_le_of_lt hstop (by decide)) d, ?_, ?_⟩
  · refine dentryIn_eq (text_congr_upTo fun j hj hle => ?_).symm fun j hlow hhigh => ?_
    · -- both loops get as far as the name's NUL
      have hname : (text 0 (fs.entryByte a) 32 0).length ≤
          leading (fun j => fs.entryByte a j != 0) 40 0 := by
        rw [length_text]
        exact leading_mono (by decide) 0
      rw [Nat.zero_add, FileSystem.storeFields, if_neg (by omega), if_pos (by omega)]
    · exact if_pos ⟨hlow, hhigh⟩
  · intro j hj
    rw [FileSystem.storeFields, if_neg (by omega), if_neg (by omega)]

/-- What `read_dentry_by_index` leaves. -/
theorem dentryIn_readDentryByIndexInto {index : Word} (h : index < fs.dirCount)
    (d : Nat → Byte) :
    ∃ filled, fs.readDentryByIndexInto index d = (0, filled) ∧
      dentryIn filled = fs.dentryAt (fs.direntry index.toNat) := by
  refine ⟨_, if_pos h, dentryIn_eq ?_ fun j hlow hhigh => ?_⟩
  · have hcopy : ∀ j, j < 32 → (fun j => if j < 40 then
        fs.filledEntry (fs.direntry index.toNat) j else d j) (0 + j) =
        fs.filledEntry (fs.direntry index.toNat) (0 + j) := by
      intro j hj
      exact if_pos (by omega)
    rw [text_congr hcopy, text_filledEntry, nameAt_bytes]
  · show (if j < 40 then fs.filledEntry (fs.direntry index.toNat) j else d j) = _
    rw [if_pos hhigh, FileSystem.filledEntry, if_neg (by omega)]

end Copies

/-! ## The lookup -/

section Lookup
variable {fs : FileSystem} {fname : CString}

/-- **The copies refine the lookup of names as strings.** -/
theorem findDentryInto_eq {n i : Nat} (fname : CString) (d : Nat → Byte)
    (htypes : ∀ j, i ≤ j → j < i + n → (fs.dentryAt (fs.direntry j)).filetype.toNat ≤ 2) :
    match fs.findDentry fname n i with
    | none => fs.findDentryInto fname d n i = some (minusOne, d)
    | some entry => ∃ d', fs.findDentryInto fname d n i = some (0, d') ∧ dentryIn d' = entry ∧
        ∀ j, 40 ≤ j → d' j = d j := by
  induction n generalizing i with
  | zero => rfl
  | succ n ih =>
    rw [FileSystem.findDentry, FileSystem.findDentryInto]
    by_cases hmatch : fs.nameMatches fname (fs.direntry i) = true
    · obtain ⟨copied, hcopy, hentry, hbehind⟩ :=
        strcpy_storeFields (htypes i (Nat.le_refl i) (by omega)) d
      rw [if_pos hmatch, if_pos hmatch, hcopy]
      exact ⟨_, rfl, hentry, hbehind⟩
    · rw [if_neg hmatch, if_neg hmatch]
      exact ih fun j hlow hhigh => htypes j (by omega) (by omega)

theorem nameMatches_iff_named (a : Word) :
    fs.nameMatches fname a = true ↔ fname.strlen ≤ 32 ∧ fs.nameAt a = fname := by
  by_cases hlen : fname.strlen ≤ 32
  · rw [nameMatches_iff hlen, and_iff_right hlen, eq_comm]
  · rw [FileSystem.nameMatches, decide_eq_true_iff]
    exact iff_of_false (fun h => hlen h.2) fun h => hlen h.1

theorem findDentry_eq_none_iff {n i : Nat} :
    fs.findDentry fname n i = none ↔
      ∀ j, i ≤ j → j < i + n → fs.nameMatches fname (fs.direntry j) = false := by
  induction n generalizing i with
  | zero => exact iff_of_true rfl fun j hlow hhigh => by omega
  | succ n ih =>
    rw [FileSystem.findDentry]
    by_cases hmatch : fs.nameMatches fname (fs.direntry i) = true
    · rw [if_pos hmatch]
      refine iff_of_false (Option.some_ne_none _) fun hall => ?_
      rw [hall i (Nat.le_refl i) (by omega)] at hmatch
      cases hmatch
    · rw [if_neg hmatch, ih]
      constructor
      · intro h j hlow hhigh
        rcases Nat.eq_or_lt_of_le hlow with rfl | hlt
        · exact Bool.eq_false_iff.mpr hmatch
        · exact h j hlt (by omega)
      · exact fun h j hlow hhigh => h j (by omega) (by omega)

theorem readDentryByName_of_firstNamed {j : Nat} (h : fs.FirstNamed fname j) :
    fs.readDentryByName fname = some (fs.dentryAt (fs.direntry j)) := by
  have hlen : fname.strlen ≤ 32 := h.name ▸ strlen_nameAt_le fs (fs.direntry j)
  refine findDentry_eq (Nat.zero_le j) (by have := h.below; omega)
    ((nameMatches_iff_named _).mpr ⟨hlen, h.name⟩) fun m _ hm => ?_
  rw [← Bool.not_eq_true, nameMatches_iff_named]
  exact fun hmatch => h.first m hm hmatch.2

theorem readDentryByName_eq_none_iff (fs : FileSystem) (fname : CString) :
    fs.readDentryByName fname = none ↔ ¬(fname.strlen ≤ 32 ∧
      ∃ j, j < fs.dirCount.toInt.toNat ∧ fs.nameAt (fs.direntry j) = fname) := by
  rw [FileSystem.readDentryByName, findDentry_eq_none_iff]
  simp only [← Bool.not_eq_true, nameMatches_iff_named, Nat.zero_add, Nat.zero_le, true_implies]
  constructor
  · rintro h ⟨hlen, j, hj, hname⟩
    exact h j hj ⟨hlen, hname⟩
  · exact fun h j hj hmatch => h ⟨hmatch.1, j, hj, hmatch.2⟩

end Lookup

/-- **Name lookup.**  On a boot block with the file types there are, `read_dentry_by_name`
finds exactly the names of entries, fills in what the index of the first entry with the name
gives, and leaves the `dentry_t` untouched otherwise. -/
theorem lookup_byName {fs : FileSystem} (htypes : fs.TypesKnown) (fname : CString)
    (d : Nat → Byte) :
    ∃ ret d', fs.readDentryByNameInto fname d = some (ret, d') ∧ fs.LookedUp fname d ret d' := by
  have hnone := readDentryByName_eq_none_iff fs fname
  have hcopies := findDentryInto_eq (n := fs.dirCount.toInt.toNat) (i := 0) fname d
    fun j _ hj => htypes j (by omega)
  have hsame : fs.findDentry fname fs.dirCount.toInt.toNat 0 = fs.readDentryByName fname := rfl
  rw [hsame] at hcopies
  cases hfind : fs.readDentryByName fname with
  | none =>
    rw [hfind] at hcopies hnone
    refine ⟨minusOne, d, hcopies, ⟨?_, fun j hj => ?_, fun _ _ => rfl, fun _ => ⟨rfl, rfl⟩⟩⟩
    · exact iff_of_false (by decide) (hnone.mp rfl)
    · rw [readDentryByName_of_firstNamed hj] at hfind
      cases hfind
  | some entry =>
    rw [hfind] at hcopies hnone
    obtain ⟨d', hcall, hentry, hbehind⟩ := hcopies
    refine ⟨0, d', hcall, ⟨?_, fun j hj d₀ => ?_, hbehind, fun h => absurd rfl h⟩⟩
    · exact iff_of_true rfl (not_not.mp fun h => Option.some_ne_none _ (hnone.mpr h))
    · obtain rfl : entry = fs.dentryAt (fs.direntry j) := by
        rw [readDentryByName_of_firstNamed hj] at hfind
        exact (Option.some.inj hfind).symm
      -- an index below `dir_count` as an `int32_t` is below it as a `uint32_t`
      have hbelow := hj.below
      have hindex : (BitVec.ofNat 32 j).toNat = j := by
        rw [BitVec.toNat_ofNat]
        have := fs.dirCount.toInt_lt
        omega
      have hlt : BitVec.ofNat 32 j < fs.dirCount := by
        rw [BitVec.lt_def, hindex]
        have := fs.dirCount.toInt_eq_toNat_cond
        split at this <;> omega
      obtain ⟨d₁, hbyIndex, hfilled⟩ := dentryIn_readDentryByIndexInto hlt d₀
      rw [hindex] at hfilled
      exact ⟨d₁, hbyIndex, hentry.trans hfilled.symm⟩

/-- The name that fills its array is found. -/
theorem lookup_directoryImage :
    ∃ ret d', directoryImage.readDentryByNameInto ⟨List.replicate 32 0x61, by decide⟩
        (fun _ => 0xCC) = some (ret, d') ∧
      directoryImage.LookedUp ⟨List.replicate 32 0x61, by decide⟩ (fun _ => 0xCC) ret d' :=
  lookup_byName (by unfold FileSystem.TypesKnown; decide +kernel) _ _

end LinuxLikeOS
