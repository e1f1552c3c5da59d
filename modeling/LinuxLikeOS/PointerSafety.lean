import LinuxLikeOS.Scenes
import LinuxLikeOS.UserBuffers

/-! # Pointers into the program page

A user program has one page of 4MB.  Every byte that `read`, `getargs` or `vidmap`
stores for it should lie there, and a request for a buffer that does not should be
refused (`PointerSafe`).  The calls check little: `vidmap` the pointer, with a bound
that lets four addresses too many through, the others only for NULL.  At those four `vidmap`
stores behind the page, or it faults while the next page is not present.
`pointerSafe_iff` says for which pointers and lengths they do what they should.
-/
namespace LinuxLikeOS
open Transition

/-! ## Safety of one call -/

/-- A buffer of `n` bytes at `buf` lies in the page of the user program. -/
def InPage (buf : Word) (n : Nat) : Prop :=
  n = 0 ∨ programImgStart ≤ buf ∧ buf.toNat + n ≤ programImgEnd.toNat

instance (buf : Word) (n : Nat) : Decidable (InPage buf n) :=
  inferInstanceAs (Decidable (_ ∨ _ ∧ _))

theorem InPage.mono {buf : Word} {m n : Nat} (h : InPage buf n) (hle : m ≤ n) : InPage buf m := by
  rcases h with hzero | ⟨hlow, hhigh⟩
  · exact Or.inl (Nat.le_zero.mp (hzero ▸ hle))
  · exact Or.inr ⟨hlow, by omega⟩

/-- What a call stores through its pointer lies in the program page.  Bytes stored elsewhere may
overwrite the kernel, and are in no event of it. -/
def StoresInPage (fs : FileSystem) (k : Kernel) : Event → Prop
  | .read fd buf old nbytes => InPage buf (Syscall.read fs k fd buf old nbytes).stored.length
  | .write fd buf text nbytes => InPage buf (Syscall.write k fd buf text nbytes).stored.length
  | .getargs buf nbytes => InPage buf (Syscall.getargs k buf nbytes).stored.length
  | .vidmap screenStart => InPage screenStart (Syscall.vidmap k screenStart).stored.length
  | _ => True

instance (fs : FileSystem) (k : Kernel) : (e : Event) → Decidable (StoresInPage fs k e)
  | .read .. | .write .. | .getargs .. | .vidmap _ => inferInstanceAs (Decidable (InPage _ _))
  | .pitTick _ | .switchTo .. | .execute .. | .halt .. | .raiseException | .key _ | .ctrlL
  | .lineServed | .open _ | .close _ => isTrue trivial

/-- So many bytes are loaded from `LOAD_ADDR` on. -/
def Control.imageLength : Control → Nat
  | .launched _ _ image => image.length
  | .returned _ | .resumed .. | .faulted => 0

/-- What is loaded ends in the program page.  `execute` does not check that, and its loader may
fault behind the page. -/
def LoadsInPage (fs : FileSystem) (k : Kernel) (e : Event) : Prop :=
  ((processControl fs k e).elim 0 Control.imageLength) ≤ 0x3B8000

instance (fs : FileSystem) (k : Kernel) (e : Event) : Decidable (LoadsInPage fs k e) :=
  inferInstanceAs (Decidable (_ ≤ _))

/-- The kernel stores through pointers and loads inside the program page only. -/
def FillsPage (fs : FileSystem) (k : Kernel) (e : Event) : Prop :=
  StoresInPage fs k e ∧ LoadsInPage fs k e

instance (fs : FileSystem) (k : Kernel) (e : Event) : Decidable (FillsPage fs k e) :=
  inferInstanceAs (Decidable (_ ∧ _))

/-- What a call given a buffer of `n` bytes at `buf` should do. -/
structure PointerSafe (r : CallResult) (buf : Word) (n : Nat) : Prop where
  inside : ∀ i, i < r.stored.length →
    programImgStart ≤ buf + BitVec.ofNat 32 i ∧ buf + BitVec.ofNat 32 i < programImgEnd
  refused : ¬InPage buf n → r.ret = some minusOne ∧ r.stored = []

/-- Consecutive bytes lie in the page together. -/
theorem inPage_iff {buf : Word} {n : Nat} : InPage buf n ↔ ∀ i, i < n →
    programImgStart ≤ buf + BitVec.ofNat 32 i ∧ buf + BitVec.ofNat 32 i < programImgEnd := by
  have hend : programImgEnd.toNat = 0x8400000 := rfl
  constructor
  · rintro (hzero | ⟨hlow, hhigh⟩) i hi
    · omega
    · have haddr : (buf + BitVec.ofNat 32 i).toNat = buf.toNat + i := by bv_omega
      rw [BitVec.le_def, BitVec.lt_def, haddr]
      rw [BitVec.le_def] at hlow
      omega
  · intro h
    by_cases hzero : n = 0
    · exact Or.inl hzero
    · obtain ⟨hlow, hfirst⟩ := h 0 (by omega)
      simp only [BitVec.add_zero] at hlow hfirst
      refine Or.inr ⟨hlow, ?_⟩
      by_contra hover
      -- the byte that would be at the end of the page
      have hlast := (h (programImgEnd.toNat - buf.toNat) (by omega)).2
      rw [BitVec.lt_def] at hfirst hlast
      have haddr : (buf + BitVec.ofNat 32 (programImgEnd.toNat - buf.toNat)).toNat =
          programImgEnd.toNat := by
        bv_omega
      omega

/-- **Pointer safety of one call**: it is refused, or both the buffer and the bytes
stored fit. -/
theorem pointerSafe_result_iff {r : CallResult} {buf : Word} {n : Nat} : PointerSafe r buf n ↔
    (r.ret = some minusOne ∧ r.stored = []) ∨ InPage buf n ∧ InPage buf r.stored.length := by
  constructor
  · intro h
    by_cases hin : InPage buf n
    · exact Or.inr ⟨hin, inPage_iff.mpr h.inside⟩
    · exact Or.inl (h.refused hin)
  · rintro (⟨hret, hstored⟩ | ⟨hin, hbytes⟩)
    · exact ⟨fun i hi => by simp [hstored] at hi, fun _ => ⟨hret, hstored⟩⟩
    · exact ⟨inPage_iff.mp hbytes, fun hout => absurd hin hout⟩

/-- A `read` is refused, or both the buffer and the bytes that its driver stores lie in
the page. -/
def ReadInPage (fs : FileSystem) (k later : Kernel) (fd buf : Word) (old : Nat → Byte)
    (nbytes : Word) : Prop :=
  ReadRefuses fs later (dispatchRead k k.visibleSlot fd buf) ∨
    InPage buf (bufferSize nbytes) ∧
      InPage buf (readStores fs later old nbytes (dispatchRead k k.visibleSlot fd buf))

/-- A `getargs` is refused, or both the buffer and the argument with its NUL lie in the
page. -/
def GetargsInPage (k : Kernel) (buf nbytes : Word) : Prop :=
  buf = 0 ∨ (k.pcb k.visibleSlot).arg.strlen = 0 ∨
    InPage buf (bufferSize nbytes) ∧ InPage buf ((k.pcb k.visibleSlot).arg.strlen + 1)

/-- The pointer of a `vidmap` is not one of the last three addresses of the page or the
first one after it. -/
def VidmapInPage (screenStart : Word) : Prop :=
  screenStart ≤ programImgEnd - 4 ∨ programImgEnd < screenStart

/-- A `vidmap` that is not refused for its range has faulted at its store. -/
theorem storeFaults_of_refused {k : Kernel} {screenStart : Word}
    (hrefused : ¬VidmapAccepts k screenStart)
    (hrange : ¬(screenStart < programImgStart ∨ programImgEnd < screenStart)) :
    programImgEnd - 4 < screenStart := by
  have hnull : screenStart ≠ 0 := by
    rintro rfl
    exact hrange (Or.inl (by decide))
  by_contra hfits
  refine hrefused ⟨hnull, hrange, ?_⟩
  rw [Kernel.storeFaults, decide_eq_false hfits]
  rfl

/-- **Pointer safety.**  Each of the three calls stores into the program page only, and
refuses requests outside, exactly if its own checks refuse it or its buffer and what it
stores fit. -/
theorem pointerSafe_iff (fs : FileSystem) (k later : Kernel) (fd buf : Word) (old : Nat → Byte)
    (nbytes screenStart : Word) :
    (PointerSafe (Syscall.readReturned fs k later fd buf old nbytes) buf (bufferSize nbytes) ↔
      ReadInPage fs k later fd buf old nbytes) ∧
    (PointerSafe (Syscall.getargs k buf nbytes) buf (bufferSize nbytes) ↔
      GetargsInPage k buf nbytes) ∧
    (PointerSafe (Syscall.vidmap k screenStart) screenStart 4 ↔ VidmapInPage screenStart) := by
  refine ⟨?_, ?_, ?_⟩
  · have h := readReturned_answers fs k later fd buf old nbytes
    rw [pointerSafe_result_iff, h.refused_iff, h.length_stored]
    rfl
  · rw [pointerSafe_result_iff, GetargsInPage]
    rcases getargs_cases k buf nbytes with ⟨hrefused, heq⟩ | ⟨hnull, hempty, heq⟩ <;> rw [heq]
    · exact iff_of_true (Or.inl ⟨rfl, rfl⟩) (hrefused.imp_right Or.inl)
    · rw [or_iff_right hnull, or_iff_right hempty, or_iff_right (fun h => by simp at h),
        List.length_append]
      rfl
  · rw [pointerSafe_result_iff, VidmapInPage]
    have hstart : programImgStart.toNat = 0x8000000 := rfl
    have hend : programImgEnd.toNat = 0x8400000 := rfl
    have hlast : (programImgEnd - 4).toNat = 0x83FFFFC := rfl
    by_cases haccepts : VidmapAccepts k screenStart
    · rw [vidmap_accepted haccepts, or_iff_right (fun h => nomatch h.2), length_wordBytes,
        and_self, InPage]
      have hrange := haccepts.2.1
      rw [not_or, BitVec.lt_def, BitVec.lt_def] at hrange
      rw [BitVec.le_def, BitVec.le_def, BitVec.lt_def]
      omega
    · rw [vidmap_refused haccepts]
      by_cases hrange : screenStart < programImgStart ∨ programImgEnd < screenStart
      · rw [if_pos hrange]
        refine iff_of_true (Or.inl ⟨rfl, rfl⟩) ?_
        bv_omega
      · -- the store faults, so its word ends behind the page
        have hstore := storeFaults_of_refused haccepts hrange
        rw [if_neg hrange, or_iff_right (fun h => nomatch h.1), InPage]
        refine iff_of_false (fun h => ?_) ?_
        · rw [BitVec.lt_def] at hstore
          rcases h.1 with hnone | ⟨_, hfits⟩
          · cases hnone
          · omega
        · bv_omega

/-- The first shell has called `vidmap` once, so the first page after its own is there; then it
calls `vidmap` with the first address of that page. -/
theorem pointerSafe_pageEnd :
    ¬∀ (fs : FileSystem) (h : Hardware) (junk : Nat → Byte) (regs : Regs) (es : List Event)
      (fd buf : Word) (old : Nat → Byte) (nbytes screenStart : Word),
      let k := (kernelMachine fs).run (booted fs h junk regs) es
      PointerSafe (Syscall.readReturned fs k k fd buf old nbytes) buf (bufferSize nbytes) ∧
      PointerSafe (Syscall.getargs k buf nbytes) buf (bufferSize nbytes) ∧
      PointerSafe (Syscall.vidmap k screenStart) screenStart 4 := by
  intro hall
  have hinside := (hall shellImage zeroHardware noJunk ⟨0x7FFF00, 0x7FFF40⟩ [.vidmap 0x8100000]
    0 0 noJunk 0 0x8400000).2.2.inside 0 (by decide +kernel)
  exact absurd hinside.2 (by decide)

end LinuxLikeOS
