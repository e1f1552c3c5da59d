import LinuxLikeOS.KernelRun
import LinuxLikeOS.UserBuffers

/-! # Length discipline

A call given `nbytes` should store at most that many bytes, and `read` should return at
most that many (`LengthDiscipline`).  The drivers treat `nbytes` each in their own way:
`read_terminal` compares it unsigned and appends a newline, `directory_read` and
`getargs` do not look at it, and `read_data` takes a negative one for a large one.
`lengthDiscipline_iff` says what has to fit.
-/
namespace LinuxLikeOS
open CountedLoop Transition

/-! ## Discipline of one call -/

/-- What a call given `nbytes` should do. -/
structure LengthDiscipline (r : CallResult) (nbytes : Word) : Prop where
  stored : r.stored.length ≤ bufferSize nbytes
  ret : ∀ v, r.ret = some v → v ≠ minusOne → v.toInt ≤ bufferSize nbytes

/-- A finished line fits `nbytes`: that is 0 or at least 128; or the newline is among the
first `nbytes` bytes, and not the last of 127; or it is not, and the byte behind the
buffer, which `read_terminal` looks at, is a newline already. -/
def LineFits (line old : Nat → Byte) (nbytes : Word) : Prop :=
  let p := leading (inLine line) nbytes.toNat 0
  nbytes.toInt = 0 ∨ 128 ≤ nbytes.toInt ∨
    0 < nbytes.toInt ∧ nbytes.toInt ≤ 127 ∧
      (p < nbytes.toNat ∧ p ≠ 126 ∨ p = nbytes.toNat ∧ nbytes ≠ 127 ∧ old nbytes.toNat = 0x0A)

/-- The three ways in which the copy of a line ends. -/
theorem lineStores_cases (line old : Nat → Byte) (nbytes : Word) :
    let n := readingTask nbytes
    let p := leading (inLine line) n 0
    p < n ∧ lineStores line old nbytes = p + 1 ∨
    p = n ∧ 0 < n ∧ old n ≠ 0x0A ∧ lineStores line old nbytes = n + 1 ∨
    p = n ∧ (n = 0 ∨ old n = 0x0A) ∧ lineStores line old nbytes = n := by
  intro n p
  have hle : p ≤ n := leading_le n 0
  by_cases hline : p < n
  · exact Or.inl ⟨hline, if_pos hline⟩
  · have hend : p = n := by omega
    by_cases hpatch : 0 < n ∧ old n ≠ 0x0A
    · exact Or.inr (Or.inl ⟨hend, hpatch.1, hpatch.2, (if_neg hline).trans (if_pos hpatch)⟩)
    · refine Or.inr (Or.inr ⟨hend, ?_, (if_neg hline).trans (if_neg hpatch)⟩)
      rw [not_and_or, not_lt, Nat.le_zero, not_not] at hpatch
      exact hpatch

theorem lineFits_iff (line old : Nat → Byte) (nbytes : Word) :
    (lineStores line old nbytes ≤ bufferSize nbytes ∧
      (lineStores line old nbytes = 127 → 128 ≤ bufferSize nbytes)) ↔
    LineFits line old nbytes := by
  have hcond := BitVec.toInt_eq_toNat_cond nbytes
  have hlt := nbytes.isLt
  have hmax : nbytes = 127 ↔ nbytes.toNat = 127 := by bv_omega
  have hslt : nbytes.slt 127 = decide (nbytes.toInt < 127) := rfl
  have hcases := lineStores_cases line old nbytes
  unfold LineFits bufferSize
  rw [Ne, hmax]
  by_cases hsmall : nbytes.toInt < 127
  · -- the loop's bound is `nbytes` itself, without its sign
    have htask : readingTask nbytes = nbytes.toNat :=
      if_pos (by rw [hslt]; exact decide_eq_true hsmall)
    rw [htask] at hcases
    rcases hcases with ⟨hp, hs⟩ | ⟨hp, hpos, hold, hs⟩ | ⟨hp, hold, hs⟩
    · split at hcond <;> omega
    · simp only [hold, and_false, or_false]
      split at hcond <;> omega
    · rcases hold with hzero | hold
      · split at hcond <;> omega
      · simp only [hold, and_true]
        split at hcond <;> omega
  · -- the bound is 127, which fits any buffer that is larger
    have htask : readingTask nbytes = 127 := if_neg (by rw [hslt]; simpa using hsmall)
    rw [htask] at hcases
    by_cases hall : 128 ≤ nbytes.toInt
    · refine iff_of_true ?_ (Or.inr (Or.inl hall))
      rcases hcases with ⟨hp, hs⟩ | ⟨hp, _, _, hs⟩ | ⟨hp, _, hs⟩ <;> omega
    · have hnat : nbytes.toNat = 127 := by split at hcond <;> omega
      rw [hnat]
      rcases hcases with ⟨hp, hs⟩ | ⟨hp, _, _, hs⟩ | ⟨hp, _, hs⟩ <;> omega

/-- The condition on a `read` that was dispatched so. -/
def ReadFits (fs : FileSystem) (later : Kernel) (old : Nat → Byte) (nbytes : Word) :
    Dispatch → Prop
  | .driver _ .stdin =>
    later.visible.enter = true → LineFits later.visible.keyboardBuffer old nbytes
  | .driver i .file =>
    let e := driverEntry later i
    0 ≤ nbytes.toInt ∨ fs.unreadable e.inode e.filePosition = true ∨
      fs.holdsByte e.inode e.filePosition 0 = false
  | .driver i .directory => nameStores fs (driverEntry later i) ≤ bufferSize nbytes
  | .driver _ .stdout | .driver _ .rtc | .refused | .null _ => True

/-- The condition on a `getargs`. -/
def GetargsFits (k : Kernel) (buf nbytes : Word) : Prop :=
  buf = 0 ∨ (k.pcb k.visibleSlot).arg.strlen = 0 ∨
    (k.pcb k.visibleSlot).arg.strlen + 1 ≤ bufferSize nbytes

section Lengths
variable {fs : FileSystem} {later : Kernel} {old : Nat → Byte} {nbytes : Word} {r : CallResult}

/-- Counts up to `nbytes` are what they are as an `int32_t`. -/
theorem toInt_count {n : Nat} (h : n ≤ bufferSize nbytes) : (BitVec.ofNat 32 n).toInt = n := by
  have hlt := BitVec.toInt_lt (x := nbytes)
  unfold bufferSize at h
  rw [BitVec.toInt_eq_toNat_cond, BitVec.toNat_ofNat]
  split <;> omega

/-- A call that returns how many bytes it has stored needs to store few enough. -/
theorem lengthDiscipline_of_count (hret : ∀ v, r.ret = some v →
      v = minusOne ∨ v = BitVec.ofNat 32 r.stored.length) :
    LengthDiscipline r nbytes ↔ r.stored.length ≤ bufferSize nbytes := by
  refine ⟨fun h => h.stored, fun h => ⟨h, fun v hv hne => ?_⟩⟩
  rw [(hret v hv).resolve_left hne, toInt_count h]
  omega

/-- The same for a call that has stored nothing. -/
theorem lengthDiscipline_of_nil (hstored : r.stored = []) {n : Nat} (hn : n ≤ bufferSize nbytes)
    (hret : ∀ v, r.ret = some v → v = minusOne ∨ v = BitVec.ofNat 32 n) :
    LengthDiscipline r nbytes := by
  refine ⟨by simp [hstored], fun v hv hne => ?_⟩
  rw [(hret v hv).resolve_left hne, toInt_count hn]
  omega

/-- A line: `read_terminal` returns 128 for 127 stored bytes. -/
theorem lengthDiscipline_line {line : Nat → Byte}
    (hret : r.ret = some (returned r.stored.length))
    (hlen : r.stored.length = lineStores line old nbytes) :
    LengthDiscipline r nbytes ↔ LineFits line old nbytes := by
  rw [← lineFits_iff, ← hlen]
  constructor
  · intro h
    refine ⟨h.stored, fun hfull => ?_⟩
    have hbound := h.ret _ hret (by rw [hfull]; decide)
    rw [hfull, show (returned 127).toInt = 128 from rfl] at hbound
    omega
  · rintro ⟨hstored, hfull⟩
    refine ⟨hstored, fun v hv _ => ?_⟩
    rw [hret, Option.some.injEq] at hv
    rw [← hv, returned]
    split
    · -- 127 bytes are reported as 128
      rename_i h
      rw [h]
      have := hfull h
      exact Int.ofNat_le.mpr this
    · rw [toInt_count hstored]
      omega

theorem fileStores_le_iff (fs : FileSystem) (e : FdEntry) (nbytes : Word) :
    fileStores fs e nbytes ≤ bufferSize nbytes ↔
      0 ≤ nbytes.toInt ∨ fs.unreadable e.inode e.filePosition = true ∨
        fs.holdsByte e.inode e.filePosition 0 = false := by
  have hcond := BitVec.toInt_eq_toNat_cond nbytes
  have hle := leading_le (p := fs.holdsByte e.inode e.filePosition) nbytes.toNat 0
  have hzero := leading_eq_zero_iff (p := fs.holdsByte e.inode e.filePosition) (n := nbytes.toNat)
    (i := 0)
  have hlt := nbytes.isLt
  unfold fileStores bufferSize
  by_cases hunreadable : fs.unreadable e.inode e.filePosition = true
  · simp [hunreadable]
  · rw [if_neg hunreadable, or_iff_right hunreadable]
    by_cases hneg : 0 ≤ nbytes.toInt
    · refine iff_of_true ?_ (Or.inl hneg)
      split at hcond <;> omega
    · have hpos : nbytes.toNat ≠ 0 := by split at hcond <;> omega
      rw [or_iff_right hneg, ← hzero.trans (or_iff_right hpos)]
      omega

/-- **Length discipline of `read`**, by what it is dispatched to. -/
theorem Answers.disciplined_iff {d : Dispatch} (h : Answers fs later old nbytes r d) :
    LengthDiscipline r nbytes ↔ ReadFits fs later old nbytes d := by
  cases d with
  | refused =>
    exact iff_of_true (lengthDiscipline_of_nil h.2 (Nat.zero_le _) fun v hv =>
      Or.inl (Option.some.inj (hv.symm.trans h.1))) trivial
  | null i =>
    exact iff_of_true (lengthDiscipline_of_nil h.2 (Nat.zero_le _) fun v hv => by
      rw [h.1] at hv; exact nomatch hv) trivial
  | driver i op =>
    cases op with
    | stdin =>
      simp only [Answers] at h
      simp only [ReadFits]
      split at h
      · rename_i henter
        rw [lengthDiscipline_line h.1 h.2]
        exact (imp_iff_right henter).symm
      · rename_i henter
        exact iff_of_true (lengthDiscipline_of_nil h.2 (Nat.zero_le _) fun v hv => by
          rw [h.1] at hv; exact nomatch hv) (fun hset => absurd hset henter)
    | stdout =>
      obtain ⟨⟨n, hn, hret⟩, hstored⟩ := h
      exact iff_of_true (lengthDiscipline_of_nil hstored hn fun v hv =>
        Or.inr (Option.some.inj (hv.symm.trans hret))) trivial
    | file =>
      simp only [Answers] at h
      have hlen : r.stored.length = fileStores fs (driverEntry later i) nbytes := by
        rw [h.2, fileStores, FileSystem.length_readData]
      have hret : ∀ v, r.ret = some v → v = minusOne ∨ v = BitVec.ofNat 32 r.stored.length := by
        intro v hv
        rw [h.2, Option.some.inj (hv.symm.trans h.1)]
        exact FileSystem.ret_readData _ _ _
      rw [lengthDiscipline_of_count hret, hlen, fileStores_le_iff]
      rfl
    | directory =>
      rw [lengthDiscipline_of_count fun v hv => Or.inr (Option.some.inj (hv.symm.trans h.1)), h.2]
      rfl
    | rtc =>
      exact iff_of_true (lengthDiscipline_of_nil h.2 (Nat.zero_le _) fun v hv =>
        Or.inr (Option.some.inj (hv.symm.trans h.1))) trivial

end Lengths

/-- **Length discipline.**  `read` and `getargs` store and return at most `nbytes`
exactly if what the driver has fits. -/
theorem lengthDiscipline_iff (fs : FileSystem) (k later : Kernel) (fd buf : Word)
    (old : Nat → Byte) (nbytes : Word) :
    (LengthDiscipline (Syscall.readReturned fs k later fd buf old nbytes) nbytes ↔
      ReadFits fs later old nbytes (dispatchRead k k.visibleSlot fd buf)) ∧
    (LengthDiscipline (Syscall.getargs k buf nbytes) nbytes ↔ GetargsFits k buf nbytes) := by
  refine ⟨(readReturned_answers fs k later fd buf old nbytes).disciplined_iff, ?_⟩
  rw [GetargsFits]
  rcases getargs_cases k buf nbytes with ⟨hrefused, heq⟩ | ⟨hnull, hempty, heq⟩ <;> rw [heq]
  · exact iff_of_true (lengthDiscipline_of_nil rfl (Nat.zero_le _) fun v hv =>
      Or.inl (Option.some.inj hv).symm) (hrefused.imp_right Or.inl)
  · rw [or_iff_right hnull, or_iff_right hempty]
    have hlen : ((k.pcb k.visibleSlot).arg.bytes ++ [0]).length =
        (k.pcb k.visibleSlot).arg.strlen + 1 := by
      rw [List.length_append]
      rfl
    constructor
    · intro h
      rw [← hlen]
      exact h.stored
    · intro h
      refine ⟨by rw [hlen]; exact h, fun v hv _ => ?_⟩
      rw [← Option.some.inj hv]
      exact Int.natCast_nonneg _

/-- A line of four characters. -/
def typedLine : List Event := [.key 0x61, .key 0x62, .key 0x63, .key 0x0A]

/-- A `read` of two bytes of the line stores and returns three. -/
theorem lengthDiscipline_typedLine :
    ¬∀ (fs : FileSystem) (h : Hardware) (junk : Nat → Byte) (regs : Regs) (es : List Event)
      (fd buf : Word) (old : Nat → Byte) (nbytes : Word),
      let k := (kernelMachine fs).run (booted fs h junk regs) es
      LengthDiscipline (Syscall.readReturned fs k k fd buf old nbytes) nbytes ∧
      LengthDiscipline (Syscall.getargs k buf nbytes) nbytes := by
  intro hall
  have hstored := (hall shellImage zeroHardware noJunk ⟨0x7FFF00, 0x7FFF40⟩ typedLine 0 0x8100000
    noJunk 2).1.stored
  revert hstored
  decide +kernel

end LinuxLikeOS
