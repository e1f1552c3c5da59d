import LinuxLikeOS.PageWalk
import LinuxLikeOS.VideoMapping
import LinuxLikeOS.AddressSpaces
import LinuxLikeOS.PointerSafety

/-! # Where the kernel's page tables lead

`initial_paging` fills in a directory and one table; `map_physical_memory` and `vidmap` are the
only functions that change what a walk finds.  So in every state the directory has four
entries: the first 4MB, of which the four video pages are there, the kernel's page, the page
of the program that runs, and the pages `vidmap` hands out.

From user mode a process reaches its own page and what `vidmap` has mapped, and nothing else,
also while the processor remembers pages it has walked before: every function that changes
the tables ends by writing CR3 (`confined_run`).  The calls store through unchecked pointers; with
one into the kernel they could change the tables too, so the runs are those that do not
(`KeepsToPage`).
-/
namespace LinuxLikeOS
open Transition PageWalk

/-! ## The tables -/

/-- `page_table_entry`, which `initial_paging` fills in and nothing changes. -/
def pageTableEntry (i : Fin 1024) : Pte :=
  if i = 0xB8 then ⟨true, true, true, BitVec.ofNat 20 i⟩
  else if i = 0xB9 then ⟨true, true, true, BitVec.ofNat 20 i⟩
  else if i = 0xBA then ⟨true, true, true, BitVec.ofNat 20 i⟩
  else if i = 0xBB then ⟨true, true, true, BitVec.ofNat 20 i⟩
  else ⟨false, true, false, BitVec.ofNat 20 i⟩

def Pde.entry (e : Pde) : Entry := ⟨e.present, e.writable, e.user, e.bigPage, e.pta⟩

/-- The bit that makes a directory entry a page is 0. -/
def Pte.entry (e : Pte) : Entry := ⟨e.present, e.writable, e.user, false, e.pba⟩

/-- The frame that begins at an address: `>> 12`. -/
def frameOf (a : Word) : BitVec 20 := a.extractLsb' 12 20

/-- An index in an array of 1024 entries. -/
def entryIndex (i : BitVec 10) : Fin 1024 := ⟨i.toNat, i.isLt⟩

/-- The page tables of the kernel, among whatever is in the other frames. -/
def Kernel.pageTables (k : Kernel) (elsewhere : BitVec 20 → BitVec 10 → Entry) : Tables where
  directory i := (k.pageDirectory (entryIndex i)).entry
  table f i :=
    if f = frameOf k.tables.1 then (pageTableEntry (entryIndex i)).entry
    else if f = frameOf k.tables.2 then (k.pageTableVideo (entryIndex i)).entry
    else elsewhere f i

/-- The functions of an event end with `flush_tlb`: `map_physical_memory` does, which every tick,
launch and `halt` calls, and so does `vidmap`. -/
def flushesTlb (fs : FileSystem) (k : Kernel) : Event → Bool
  | .pitTick _ => true
  | .execute command junk regs => (execute fs k command junk regs).2.launchedSlot.isSome
  | .switchTo t junk _ frame => (switchTerminal fs k t junk frame).2.launchedSlot.isSome
  | .halt .. => true
  | .vidmap screenStart => decide (VidmapAccepts k screenStart)
  | _ => false

/-! ## What changes them -/

namespace Kernel
variable (k : Kernel)

/-- What a walk looks at. -/
def mapping : (Fin 1024 → Pde) × (Fin 1024 → Pte) × (Word × Word) :=
  (k.pageDirectory, k.pageTableVideo, k.tables)

/-- The directory without the entry of the program page, and where the tables are. -/
def fixedMapping : (Fin 1024 → Pde) × (Word × Word) :=
  (Function.update k.pageDirectory programPde Pde.zero, k.tables)

end Kernel

section Mapping
variable {fs : FileSystem} {k k' : Kernel}

theorem mapping_of_core (h : k'.core = k.core) : k'.mapping = k.mapping := by
  have hmapping : ∀ k : Kernel, k.core.mapping = k.mapping := fun _ => rfl
  rw [← hmapping k', h, hmapping]

theorem mapping_of_offScreen (h : k'.offScreen = k.offScreen) : k'.mapping = k.mapping :=
  mapping_of_core (core_of_offScreen h)

theorem pageTables_of_mapping (h : k'.mapping = k.mapping)
    (elsewhere : BitVec 20 → BitVec 10 → Entry) :
    k'.pageTables elsewhere = k.pageTables elsewhere := by
  obtain ⟨hdirectory, hrest⟩ := Prod.mk.inj h
  obtain ⟨hvideo, htables⟩ := Prod.mk.inj hrest
  unfold Kernel.pageTables
  rw [hdirectory, hvideo, htables]

theorem fixedMapping_of_mapping (h : k'.mapping = k.mapping) :
    k'.fixedMapping = k.fixedMapping := by
  obtain ⟨hdirectory, hrest⟩ := Prod.mk.inj h
  unfold Kernel.fixedMapping
  rw [hdirectory, (Prod.mk.inj hrest).2]

/-- A refused `execute` leaves the tables alone. -/
theorem mapping_execute (command : Option CString) (junk : Nat → Byte) (regs : Regs)
    (h : (execute fs k command junk regs).2.launchedSlot = none) :
    (execute fs k command junk regs).1.mapping = k.mapping := by
  rcases execute_cases fs k command junk regs with
    ⟨_, heq⟩ | ⟨_, k', hoff | hoff, heq⟩ | ⟨_, pid, arg, eip, image, _, _, heq⟩
  · rw [heq]
  · rw [heq]
    exact mapping_of_offScreen hoff
  · rw [heq]
    exact (mapping_of_offScreen hoff).trans rfl
  · rw [heq] at h
    cases h

/-- **What changes the tables flushes the buffer.** -/
theorem mapping_step (e : Event) (h : flushesTlb fs k e = false) :
    (kernelStep fs k e).mapping = k.mapping := by
  cases e with
  | pitTick | halt => cases h
  | execute command junk regs =>
    exact mapping_execute command junk regs
      (Option.not_isSome_iff_eq_none.mp (Bool.not_eq_true _ ▸ h))
  | switchTo t junk entry frame =>
    have hnone : (switchTerminal fs k t junk frame).2.launchedSlot = none :=
      Option.not_isSome_iff_eq_none.mp (Bool.not_eq_true _ ▸ h)
    rw [kernelStep]
    rcases switchTerminal_cases fs k t junk frame with
      ⟨_, heq⟩ | ⟨_, _, heq⟩ | ⟨_, _, heq⟩
    · rw [heq]
    · rw [heq]
      rfl
    · rw [heq] at hnone ⊢
      exact (mapping_execute (some shell) junk frame hnone).trans rfl
  | vidmap screenStart =>
    rw [kernelStep, vidmap_refused_kernel (of_decide_eq_false h)]
  | raiseException => rfl
  | key | ctrlL | read | lineServed | write | «open» | close | getargs =>
    exact mapping_of_core (core_call rfl (by simp) (by simp))

theorem fixedMapping_execute (fs : FileSystem) (k : Kernel) (command : Option CString)
    (junk : Nat → Byte) (regs : Regs) :
    (execute fs k command junk regs).1.fixedMapping = k.fixedMapping := by
  rcases execute_cases fs k command junk regs with
    ⟨_, heq⟩ | ⟨_, k', hoff | hoff, heq⟩ | ⟨_, pid, arg, eip, image, _, _, heq⟩
  · rw [heq]
  · rw [heq]
    exact fixedMapping_of_mapping (mapping_of_offScreen hoff)
  · rw [heq]
    exact fixedMapping_of_mapping ((mapping_of_offScreen hoff).trans rfl)
  · rw [heq]
    show (Function.update (Function.update k.pageDirectory programPde _) programPde Pde.zero,
      k.tables) = _
    rw [Function.update_idem]
    rfl

theorem fixedMapping_resumeParent (currPid : Int) (status junkFd : Word) :
    (resumeParent k currPid status junkFd).1.fixedMapping = k.fixedMapping := by
  have hgive : (k.giveBack currPid).fixedMapping = k.fixedMapping := by
    show (Function.update (Function.update k.pageDirectory programPde _) programPde Pde.zero,
      k.tables) = _
    rw [Function.update_idem]
    rfl
  have hclose :=
    fixedMapping_of_mapping (mapping_of_core (core_close (k := k.giveBack currPid) junkFd))
  rcases resumeParent_cases k currPid status junkFd with ⟨_, heq⟩ | ⟨_, heq⟩
  · rw [heq]
    exact hclose.trans hgive
  · rw [heq]
    exact hclose.trans hgive

/-- Nothing changes the other entries of the directory. -/
theorem fixedMapping_step (fs : FileSystem) (k : Kernel) (e : Event) :
    (kernelStep fs k e).fixedMapping = k.fixedMapping := by
  cases hflush : flushesTlb fs k e with
  | false => exact fixedMapping_of_mapping (mapping_step e hflush)
  | true =>
    cases e with
    | pitTick regs =>
      show (Function.update (Function.update k.pageDirectory programPde _) programPde Pde.zero,
        k.tables) = _
      rw [Function.update_idem]
      rfl
    | execute command junk regs => exact fixedMapping_execute fs k command junk regs
    | switchTo t junk entry frame =>
      rw [kernelStep]
      rcases switchTerminal_cases fs k t junk frame with
        ⟨_, heq⟩ | ⟨_, _, heq⟩ | ⟨_, _, heq⟩
      · rw [heq]
      · rw [heq]
        rfl
      · rw [heq]
        exact (fixedMapping_execute fs _ (some shell) junk frame).trans rfl
    | halt status junk junkFd regs =>
      have hretire : k.halting.retire.fixedMapping = k.fixedMapping := rfl
      have hexec := fixedMapping_execute fs k.halting.retire (some shell) junk regs
      rw [kernelStep]
      rcases halt_cases fs k status junk junkFd regs with
        ⟨_, pid, arg, eip, image, hrun, heq⟩ | ⟨_, k', v, hrun, heq⟩ | ⟨_, heq⟩
      · rw [hrun] at hexec
        rw [heq]
        exact hexec.trans hretire
      · rw [hrun] at hexec
        rw [heq]
        exact (fixedMapping_resumeParent _ _ _).trans (hexec.trans hretire)
      · rw [heq]
        exact fixedMapping_resumeParent _ _ _
    | vidmap screenStart =>
      rw [kernelStep, vidmap_accepted (of_decide_eq_true hflush)]
      rfl
    | _ => cases hflush

end Mapping

/-! ## The invariant -/

/-- The present entries of `page_table_video` are those of the terminals, and lead to the VGA page
or to frame 0. -/
def VideoFrames (table : Fin 1024 → Pte) : Prop :=
  ∀ i, ((table i).present = true → ∃ t, i = videoEntry t) ∧
    ((table i).pba = 0 ∨ (table i).pba = 0xB8)

/-- Apart from the program page, which is one of 4MB, the tables are what `initial_paging` and
`vidmap` make of them. -/
structure PagesMapped (k : Kernel) : Prop where
  fixed : k.fixedMapping = (initialPaging k).fixedMapping
  video : VideoFrames k.pageTableVideo
  program : (k.pageDirectory programPde).present = true →
    (k.pageDirectory programPde).bigPage = true

section Invariant
variable {fs : FileSystem} {k k' : Kernel}

theorem videoFrames_mapVideo {table : Fin 1024 → Pte} (h : VideoFrames table) (e v : Fin 3) :
    VideoFrames (mapVideo table e v) := by
  intro i
  rw [mapVideo_present, mapVideo_pba]
  refine ⟨fun hi => ?_, ?_⟩
  · by_cases he : i = videoEntry e
    · exact ⟨e, he⟩
    · rw [if_neg he] at hi
      exact (h i).1 hi
  · split
    · exact Or.inr rfl
    · exact (h i).2

theorem videoFrames_unmapVideo (h : VideoFrames k.pageTableVideo) :
    VideoFrames k.unmapVideo.pageTableVideo := by
  intro i
  by_cases hi : i = videoEntry k.currTerminalExecuting
  · subst hi
    simp only [Kernel.unmapVideo, Function.update_self]
    exact ⟨fun hpresent => absurd hpresent Bool.false_ne_true, (h _).2⟩
  · simp only [Kernel.unmapVideo, Function.update_of_ne hi]
    exact h i

theorem videoFrames_step (h : VideoFrames k.pageTableVideo) (e : Event) :
    VideoFrames (kernelStep fs k e).pageTableVideo := by
  have hshared : ∀ {k' : Kernel}, k'.shared = k.shared → VideoFrames k'.pageTableVideo := by
    intro k' heq
    rw [show k'.pageTableVideo = k.pageTableVideo from congrArg Shared.videoTable heq]
    exact h
  cases e with
  | vidmap screenStart =>
    by_cases haccepts : VidmapAccepts k screenStart
    · rw [kernelStep, vidmap_accepted haccepts]
      exact videoFrames_mapVideo h _ _
    · rw [kernelStep, vidmap_refused_kernel haccepts]
      exact h
  | halt status junk junkFd regs =>
    have htable := congrArg Shared.videoTable (shared_halt (k := k) fs status junk junkFd regs)
    rw [kernelStep, show Kernel.pageTableVideo _ = k.unmapVideo.pageTableVideo from htable]
    exact videoFrames_unmapVideo h
  | pitTick regs => exact h
  | switchTo t junk entry frame => exact hshared (shared_switchTerminal fs t junk frame)
  | execute command junk regs => exact hshared (shared_execute fs command junk regs)
  | raiseException => exact h
  | key | ctrlL | read | lineServed | write | «open» | close | getargs =>
    exact hshared (shared_of_core (core_call rfl (by simp) (by simp)))

/-- The program page stays, or is another process's. -/
theorem page_moves {s s' : Scene} {e : Event} {c : Option Control} (h : s.Moves fs e c s') :
    s'.page = s.page ∨ ∃ slot, s'.page = programPage slot := by
  cases h with
  | stays | refused | shown | opened => exact Or.inl rfl
  | launched | ticked | openedShell | renewed | notRenewed | left => exact Or.inr ⟨_, rfl⟩

theorem PagesMapped.step (h : PagesMapped k) (e : Event) : PagesMapped (kernelStep fs k e) := by
  have hsame := fixedMapping_step fs k e
  have htables : (kernelStep fs k e).tables = k.tables := (Prod.mk.inj hsame).2
  refine ⟨?_, videoFrames_step h.video e, ?_⟩
  · rw [hsame, h.fixed]
    unfold initialPaging Kernel.fixedMapping
    rw [htables]
  · rcases page_moves (scene_moves fs k e) with hkept | ⟨slot, hpage⟩
    · rw [show (kernelStep fs k e).pageDirectory programPde = k.pageDirectory programPde from hkept]
      exact h.program
    · rw [show (kernelStep fs k e).pageDirectory programPde = programPage slot from hpage]
      exact fun _ => rfl

theorem pagesMapped_booted (fs : FileSystem) (h : Hardware) (junk : Nat → Byte) (regs : Regs) :
    PagesMapped (booted fs h junk regs) := by
  have hdirectory : (initialised h).pageDirectory = (initialPaging (initialised h)).pageDirectory :=
    rfl
  have hvideo : (initialised h).pageTableVideo = fun _ => Pte.zero := rfl
  have hinit : PagesMapped (initialised h) := by
    refine ⟨?_, ?_, fun hpresent => ?_⟩
    · unfold Kernel.fixedMapping
      rw [hdirectory]
      rfl
    · rw [hvideo]
      exact fun _ => ⟨fun hpresent => absurd hpresent Bool.false_ne_true, Or.inl rfl⟩
    · rw [hdirectory] at hpresent
      exact absurd hpresent Bool.false_ne_true
  exact hinit.step (.execute (some shell) junk regs)

/-- The other entries of the directory are those of `initial_paging`. -/
theorem PagesMapped.directory (h : PagesMapped k) {i : Fin 1024} (hi : i ≠ programPde) :
    k.pageDirectory i = (initialPaging k).pageDirectory i := by
  have hentry := congrFun (Prod.mk.inj h.fixed).1 i
  rwa [Function.update_of_ne hi, Function.update_of_ne hi] at hentry

end Invariant

/-! ## The address space -/

/-- What process `p` reaches from user mode: its page, at 128MB, and at most the pages that
`vidmap` hands out, which lead to the VGA page or to frame 0. -/
structure Confined (p : Fin 6) (reach : Access → Address → Option Address) : Prop where
  own : ∀ write v, 0x8000000 ≤ v.toNat → v.toNat < 0x8400000 →
    ∃ w, reach ⟨true, write⟩ v = some w ∧ w.toNat = 0x800000 + 0x400000 * p + (v.toNat - 0x8000000)
  other : ∀ write v w, reach ⟨true, write⟩ v = some w →
    ¬(0x8000000 ≤ v.toNat ∧ v.toNat < 0x8400000) →
    (0x8400000 ≤ v.toNat ∧ v.toNat < 0x8403000) ∧ (w.toNat / 4096 = 0 ∨ w.toNat / 4096 = 0xB8)

/-- What the kernel reaches below the program page: itself, the four video pages, and nothing at
NULL. -/
structure KernelReach (reach : Access → Address → Option Address) : Prop where
  kernel : ∀ write v, 0x400000 ≤ v.toNat → v.toNat < 0x800000 → reach ⟨false, write⟩ v = some v
  video : ∀ write v, 0xB8 ≤ v.toNat / 4096 → v.toNat / 4096 ≤ 0xBB → reach ⟨false, write⟩ v = some v
  absent : ∀ write v, v.toNat / 4096 < 0xB8 ∨ 0xBB < v.toNat / 4096 ∧ v.toNat < 0x400000 ∨
    0x800000 ≤ v.toNat ∧ v.toNat < 0x8000000 ∨ 0x8800000 ≤ v.toNat →
      reach ⟨false, write⟩ v = none

section Reach
variable {k : Kernel} {elsewhere : BitVec 20 → BitVec 10 → Entry} {v w : Address}

theorem directoryIndex_val (v : Address) : (directoryIndex v : Nat) = v.toNat / 4194304 := by
  show (v.extractLsb' 22 10).toNat = _
  rw [BitVec.extractLsb'_toNat, Nat.shiftRight_eq_div_pow]
  have hlt := v.isLt
  omega

theorem tableIndex_val (v : Address) : (tableIndex v : Nat) = v.toNat / 4096 % 1024 := by
  show (v.extractLsb' 12 10).toNat = _
  rw [BitVec.extractLsb'_toNat, Nat.shiftRight_eq_div_pow]

theorem above_eq (k : Kernel) (elsewhere : BitVec 20 → BitVec 10 → Entry) (v : Address) :
    (k.pageTables elsewhere).above v = (k.pageDirectory (directoryIndex v)).entry := by
  have hindex : entryIndex ((v.extractLsb' 12 20).extractLsb' 10 10) = directoryIndex v := by
    rw [Fin.ext_iff, directoryIndex_val]
    show ((v.extractLsb' 12 20).extractLsb' 10 10).toNat = _
    rw [BitVec.extractLsb'_toNat, toNat_pageNumber, Nat.shiftRight_eq_div_pow]
    have hlt := v.isLt
    omega
  show (k.pageDirectory (entryIndex _)).entry = _
  rw [hindex]

theorem below_eq (k : Kernel) (elsewhere : BitVec 20 → BitVec 10 → Entry) (v : Address) :
    (k.pageTables elsewhere).below v =
      if (k.pageDirectory (directoryIndex v)).pta = frameOf k.tables.1 then
        (pageTableEntry (tableIndex v)).entry
      else if (k.pageDirectory (directoryIndex v)).pta = frameOf k.tables.2 then
        (k.pageTableVideo (tableIndex v)).entry
      else elsewhere (k.pageDirectory (directoryIndex v)).pta
        ((v.extractLsb' 12 20).extractLsb' 0 10) := by
  have hindex : entryIndex ((v.extractLsb' 12 20).extractLsb' 0 10) = tableIndex v := by
    rw [Fin.ext_iff, tableIndex_val]
    show ((v.extractLsb' 12 20).extractLsb' 0 10).toNat = _
    rw [BitVec.extractLsb'_toNat, toNat_pageNumber, Nat.shiftRight_zero]
  unfold Tables.below
  rw [above_eq]
  show (if (k.pageDirectory (directoryIndex v)).pta = frameOf k.tables.1 then
      (pageTableEntry (entryIndex _)).entry
    else if (k.pageDirectory (directoryIndex v)).pta = frameOf k.tables.2 then
      (k.pageTableVideo (entryIndex _)).entry else _) = _
  rw [hindex]
  rfl

/-- **The directory**: the first table, the kernel's page, the program page, the table of
`vidmap`, and nothing else. -/
theorem PagesMapped.cases (h : PagesMapped k) (i : Fin 1024) :
    i = programPde ∨
    ((i : Nat) = 0 ∧ k.pageDirectory i = ⟨true, true, false, false, frameOf k.tables.1⟩) ∨
    ((i : Nat) = 1 ∧ k.pageDirectory i = ⟨true, true, false, true, 0x400⟩) ∨
    ((i : Nat) = 33 ∧ k.pageDirectory i = ⟨true, true, true, false, frameOf k.tables.2⟩) ∨
    (((i : Nat) ≠ 0 ∧ (i : Nat) ≠ 1 ∧ (i : Nat) ≠ 33) ∧ (k.pageDirectory i).present = false) := by
  by_cases hprogram : i = programPde
  · exact Or.inl hprogram
  refine Or.inr ?_
  rw [h.directory hprogram]
  simp only [initialPaging]
  by_cases hzero : i = 0
  · rw [if_pos hzero, hzero]
    exact Or.inl ⟨rfl, rfl⟩
  rw [if_neg hzero]
  by_cases hone : i = 1
  · rw [if_pos hone, hone]
    exact Or.inr (Or.inl ⟨rfl, rfl⟩)
  rw [if_neg hone]
  by_cases hvideo : i = 33
  · rw [if_pos hvideo, hvideo]
    exact Or.inr (Or.inr (Or.inl ⟨rfl, rfl⟩))
  rw [if_neg hvideo]
  refine Or.inr (Or.inr (Or.inr ⟨⟨?_, ?_, ?_⟩, rfl⟩))
  · exact fun heq => hzero (Fin.ext heq)
  · exact fun heq => hone (Fin.ext heq)
  · exact fun heq => hvideo (Fin.ext heq)

/-- The video pages, and no others, are there in the first table. -/
theorem pageTableEntry_present (i : Fin 1024) :
    (pageTableEntry i).present = true ↔ 0xB8 ≤ (i : Nat) ∧ (i : Nat) ≤ 0xBB := by
  unfold pageTableEntry
  revert i
  decide +kernel

theorem pageTableEntry_pba (i : Fin 1024) : (pageTableEntry i).pba = BitVec.ofNat 20 i := by
  unfold pageTableEntry
  repeat' split
  all_goals rfl

theorem programPage_frame (p : Fin 6) :
    (programPage (View.slotOf p)).pta.toNat = 2048 + 1024 * p := by
  revert p
  decide

/-- From user mode the kernel's two entries lead nowhere. -/
theorem PagesMapped.user_cases (h : PagesMapped k)
    (hdistinct : frameOf k.tables.1 ≠ frameOf k.tables.2) {write : Bool}
    (hreach : (k.pageTables elsewhere).translate ⟨true, write⟩ v = some w)
    (hv : directoryIndex v ≠ programPde) :
    (directoryIndex v : Nat) = 33 ∧ (k.pageTableVideo (tableIndex v)).present = true ∧
      w = (k.pageTableVideo (tableIndex v)).pba ++ v.extractLsb' 0 12 := by
  have habove := above_eq k elsewhere v
  rcases h.cases (directoryIndex v) with
    hprogram | ⟨_, he⟩ | ⟨_, he⟩ | ⟨hindex, he⟩ | ⟨_, he⟩
  · exact absurd hprogram hv
  · rw [he] at habove
    rw [translate_small (by rw [habove]; rfl) (by rw [habove]; rfl), habove] at hreach
    simp [Pde.entry, Access.granted] at hreach
  · rw [he] at habove
    obtain ⟨w', -, heq⟩ := translate_large (t := k.pageTables elsewhere) (v := v)
      (by rw [habove]; rfl) (by rw [habove]; rfl) (by rw [habove]; rfl)
    rw [heq, habove] at hreach
    simp [Pde.entry, Access.granted] at hreach
  · have hbelow := below_eq k elsewhere v
    rw [he] at habove hbelow
    rw [if_neg (Ne.symm hdistinct), if_pos rfl] at hbelow
    rw [translate_small (by rw [habove]; rfl) (by rw [habove]; rfl), hbelow] at hreach
    split at hreach
    · rename_i hgranted
      exact ⟨hindex, hgranted.1, (Option.some.inj hreach).symm⟩
    · cases hreach
  · rw [translate_absent (by rw [habove]; exact he)] at hreach
    cases hreach

/-- The first 4MB. -/
theorem PagesMapped.firstTable (h : PagesMapped k) (elsewhere : BitVec 20 → BitVec 10 → Entry)
    (hv : v.toNat < 0x400000) :
    (k.pageTables elsewhere).above v =
        (⟨true, true, false, false, frameOf k.tables.1⟩ : Pde).entry ∧
      (k.pageTables elsewhere).below v = (pageTableEntry (tableIndex v)).entry := by
  have hindex : directoryIndex v = 0 := by
    rw [Fin.ext_iff, directoryIndex_val]
    show _ = 0
    omega
  have he : k.pageDirectory 0 = ⟨true, true, false, false, frameOf k.tables.1⟩ :=
    h.directory (by decide)
  rw [above_eq, below_eq, hindex, he, if_pos rfl]
  exact ⟨rfl, rfl⟩

/-- **What user mode reaches**, with the program page of process `p`. -/
theorem PagesMapped.confined (h : PagesMapped k)
    (hdistinct : frameOf k.tables.1 ≠ frameOf k.tables.2) {p : Fin 6}
    (hpage : k.pageDirectory programPde = programPage (View.slotOf p)) :
    Confined p (k.pageTables elsewhere).translate where
  own write v hlow hhigh := by
    have hindex : directoryIndex v = programPde := by
      rw [Fin.ext_iff, directoryIndex_val]
      show _ = 32
      omega
    have habove := above_eq k elsewhere v
    rw [hindex, hpage] at habove
    have hframe := programPage_frame p
    obtain ⟨w, hw, heq⟩ := translate_large (t := k.pageTables elsewhere) (v := v)
      (by rw [habove]; rfl) (by rw [habove]; rfl) (by
        rw [habove]
        show (programPage (View.slotOf p)).pta.toNat % 1024 = 0
        omega)
    refine ⟨w, ?_, ?_⟩
    · rw [heq, habove, if_pos]
      cases write <;> rfl
    · rw [hw, habove]
      show 4096 * (programPage (View.slotOf p)).pta.toNat + _ = _
      omega
  other write v w hreach houtside := by
    have hv : directoryIndex v ≠ programPde := by
      rw [Ne, Fin.ext_iff, directoryIndex_val]
      show ¬_ = 32
      omega
    obtain ⟨hindex, hpresent, rfl⟩ := h.user_cases hdistinct hreach hv
    obtain ⟨hterminal, hframe⟩ := h.video (tableIndex v)
    obtain ⟨t, ht⟩ := hterminal hpresent
    have htable := tableIndex_val v
    have hentry : (videoEntry t : Nat) = t := rfl
    rw [directoryIndex_val] at hindex
    rw [ht, hentry] at htable
    have hoffset := toNat_offset v
    refine ⟨by omega, ?_⟩
    rw [toNat_frame_append, hoffset]
    rcases hframe with hzero | hvga
    · rw [hzero]
      left
      show (4096 * 0 + _) / 4096 = 0
      omega
    · rw [hvga]
      right
      show (4096 * 0xB8 + _) / 4096 = 0xB8
      omega

/-- **What the kernel reaches.** -/
theorem PagesMapped.kernelReach (h : PagesMapped k) :
    KernelReach (k.pageTables elsewhere).translate where
  kernel write v hlow hhigh := by
    have hindex : directoryIndex v = 1 := by
      rw [Fin.ext_iff, directoryIndex_val]
      show _ = 1
      omega
    have he : k.pageDirectory 1 = ⟨true, true, false, true, 0x400⟩ := h.directory (by decide)
    have habove := above_eq k elsewhere v
    rw [hindex, he] at habove
    obtain ⟨w, hw, heq⟩ := translate_large (t := k.pageTables elsewhere) (v := v)
      (by rw [habove]; rfl) (by rw [habove]; rfl) (by rw [habove]; rfl)
    have hgranted : (⟨false, write⟩ : Access).granted ((k.pageTables elsewhere).above v).writable
        ((k.pageTables elsewhere).above v).user = true := rfl
    rw [heq, if_pos hgranted, Option.some.injEq]
    apply BitVec.eq_of_toNat_eq
    rw [hw, habove]
    show 4096 * 0x400 + _ = _
    omega
  video write v hlow hhigh := by
    obtain ⟨habove, hbelow⟩ := h.firstTable elsewhere (show v.toNat < 0x400000 by omega)
    have htable := tableIndex_val v
    have hpresent : (pageTableEntry (tableIndex v)).present = true :=
      (pageTableEntry_present _).mpr (by omega)
    rw [translate_small (by rw [habove]; rfl) (by rw [habove]; rfl), hbelow,
      if_pos ⟨hpresent, rfl⟩, Option.some.injEq]
    apply BitVec.eq_of_toNat_eq
    rw [toNat_frame_append, toNat_offset]
    show 4096 * (pageTableEntry (tableIndex v)).pba.toNat + _ = _
    rw [pageTableEntry_pba, BitVec.toNat_ofNat]
    omega
  absent write v houtside := by
    by_cases hfirst : v.toNat < 0x400000
    · obtain ⟨habove, hbelow⟩ := h.firstTable elsewhere hfirst
      have htable := tableIndex_val v
      have hpresent : ¬(pageTableEntry (tableIndex v)).present = true := by
        rw [pageTableEntry_present]
        omega
      rw [translate_small (by rw [habove]; rfl) (by rw [habove]; rfl), hbelow,
        if_neg fun hand => hpresent hand.1]
    · have habove := above_eq k elsewhere v
      have hval := directoryIndex_val v
      refine translate_absent ?_ _
      rw [habove]
      rcases h.cases (directoryIndex v) with
        hprogram | ⟨hindex, _⟩ | ⟨hindex, _⟩ | ⟨hindex, _⟩ | ⟨_, he⟩
      · have hindex : (directoryIndex v : Nat) = 32 := congrArg Fin.val hprogram
        omega
      · omega
      · omega
      · omega
      · exact he

end Reach

/-! ## The tables in memory -/

/-- A memory holds the tables of the kernel: `page_directory_entry` where CR3 says, and
`page_table_entry` and `page_table_video` where the linker has put them. -/
structure HoldsTables (load : Address → Word) (cr3 : Address) (k : Kernel) : Prop where
  directory : ∀ i, Entry.ofWord (load (frameOf cr3 ++ i ++ 0#2)) =
    (k.pageDirectory (entryIndex i)).entry
  first : ∀ i, Entry.ofWord (load (frameOf k.tables.1 ++ i ++ 0#2)) =
    (pageTableEntry (entryIndex i)).entry
  video : ∀ i, Entry.ofWord (load (frameOf k.tables.2 ++ i ++ 0#2)) =
    (k.pageTableVideo (entryIndex i)).entry

/-- The words of the three arrays, with any bits where a walk does not look; elsewhere there is
`other`. -/
def Kernel.tableWords (k : Kernel) (cr3 : Address) (high low : Address → BitVec 4)
    (other : Address → Word) (a : Address) : Word :=
  let i := entryIndex (a.extractLsb' 2 10)
  if frameOf a = frameOf cr3 then (k.pageDirectory i).entry.toWord (high a) (low a)
  else if frameOf a = frameOf k.tables.1 then (pageTableEntry i).entry.toWord (high a) (low a)
  else if frameOf a = frameOf k.tables.2 then (k.pageTableVideo i).entry.toWord (high a) (low a)
  else other a

section Memory
variable {k : Kernel} {load : Address → Word} {cr3 : Address}

/-- A walk in memory is a walk of the kernel's tables. -/
theorem HoldsTables.inMemory_eq (h : HoldsTables load cr3 k) :
    Tables.inMemory load cr3 = k.pageTables (Tables.inMemory load cr3).table := by
  have hdirectory : (Tables.inMemory load cr3).directory =
      (k.pageTables (Tables.inMemory load cr3).table).directory := funext h.directory
  have htable : (Tables.inMemory load cr3).table =
      (k.pageTables (Tables.inMemory load cr3).table).table := by
    funext f i
    simp only [Kernel.pageTables]
    by_cases hfirst : f = frameOf k.tables.1
    · rw [if_pos hfirst, hfirst]
      exact h.first i
    rw [if_neg hfirst]
    by_cases hvideo : f = frameOf k.tables.2
    · rw [if_pos hvideo, hvideo]
      exact h.video i
    · rw [if_neg hvideo]
  generalize k.pageTables (Tables.inMemory load cr3).table = t at hdirectory htable
  generalize Tables.inMemory load cr3 = t' at hdirectory htable
  obtain ⟨_, _⟩ := t
  obtain ⟨_, _⟩ := t'
  simp only at hdirectory htable
  rw [hdirectory, htable]

/-- It makes no difference what is in the other frames. -/
theorem PagesMapped.page_eq (h : PagesMapped k) (other other' : BitVec 20 → BitVec 10 → Entry) :
    (k.pageTables other).page = (k.pageTables other').page := by
  funext n
  refine page_congr rfl ?_
  show (k.pageDirectory (entryIndex (n.extractLsb' 10 10))).present = true →
    (k.pageDirectory (entryIndex (n.extractLsb' 10 10))).bigPage = false → _
  intro hpresent hsmall
  simp only [Kernel.pageTables, Pde.entry]
  rcases h.cases (entryIndex (n.extractLsb' 10 10)) with
    hprogram | ⟨_, he⟩ | ⟨_, he⟩ | ⟨_, he⟩ | ⟨_, he⟩
  · rw [hprogram] at hpresent hsmall
    rw [h.program hpresent] at hsmall
    cases hsmall
  · rw [he, if_pos rfl, if_pos rfl]
  · rw [he] at hsmall
    cases hsmall
  · rw [he]
    split
    · rfl
    · rw [if_pos rfl, if_pos rfl]
  · rw [he] at hpresent
    cases hpresent

/-- The arrays are in the memory that the kernel's assignments make of it. -/
theorem holdsTables_tableWords (k : Kernel) {cr3 : Address} (high low : Address → BitVec 4)
    (other : Address → Word) (hfirst : frameOf k.tables.1 ≠ frameOf cr3)
    (hvideo : frameOf k.tables.2 ≠ frameOf cr3)
    (hdistinct : frameOf k.tables.1 ≠ frameOf k.tables.2) :
    HoldsTables (k.tableWords cr3 high low other) cr3 k := by
  have hframe : ∀ (f : BitVec 20) (i : BitVec 10), frameOf (f ++ i ++ 0#2) = f := by
    intro f i
    apply BitVec.eq_of_toNat_eq
    have hi := i.isLt
    rw [frameOf, toNat_pageNumber, toNat_entry_append]
    omega
  have hindex : ∀ (f : BitVec 20) (i : BitVec 10),
      ((f ++ i ++ 0#2 : Address).extractLsb' 2 10) = i := by
    intro f i
    apply BitVec.eq_of_toNat_eq
    have hi := i.isLt
    rw [BitVec.extractLsb'_toNat, toNat_entry_append, Nat.shiftRight_eq_div_pow]
    omega
  refine ⟨fun i => ?_, fun i => ?_, fun i => ?_⟩
  · simp only [Kernel.tableWords, hframe, hindex, if_true, Entry.ofWord_toWord]
  · simp only [Kernel.tableWords, hframe, hindex, hfirst, if_true, if_false, Entry.ofWord_toWord]
  · simp only [Kernel.tableWords, hframe, hindex, hvideo, Ne.symm hdistinct, if_true, if_false,
      Entry.ofWord_toWord]

end Memory

/-! ## Over whole runs -/

/-- The kernel, with the record of faults, on a processor that walks the tables in a memory and
remembers what it finds. -/
def mmuMachine (fs : FileSystem) (memory : Kernel → Address → Word) (cr3 : Address) :
    Machine ((Kernel × HaltFaults) × Tlb) (Moment Event) :=
  withTlb (haltFaultMachine fs) (fun c => (Tables.inMemory (memory c.1) cr3).page)
    fun c e => flushesTlb fs c.1 e

/-- An opening launches its shell, and the kernel stores through pointers and loads inside the
program page only. -/
def KeepsToPage (fs : FileSystem) (k : Kernel) (e : Event) : Prop :=
  OpensShell fs k e ∧ FillsPage fs k e

instance (fs : FileSystem) (k : Kernel) (e : Event) : Decidable (KeepsToPage fs k e) :=
  inferInstanceAs (Decidable (_ ∧ _))

/-- Where an address leads in a state: what is remembered goes before the tables. -/
def reached (memory : Kernel → Address → Word) (cr3 : Address) (c : (Kernel × HaltFaults) × Tlb) :
    Access → Address → Option Address :=
  translateBy (c.2.before (Tables.inMemory (memory c.1.1) cr3).page)

/-- The kernel reaches its own pages, and the process that runs is confined to its own. -/
def ConfinedInUserCode (reach : Access → Address → Option Address) (c : Kernel × HaltFaults) :
    Prop :=
  KernelReach reach ∧ (c.2 c.1.currTerminalExecuting = false →
    ∃ p : Fin 6, c.1.executing.programPid = p ∧ Confined p reach)

/-- The invariant of the runs. -/
structure Furnished (tables : Word × Word) (c : Kernel × HaltFaults) : Prop where
  sheltered : Sheltered c
  mapped : PagesMapped c.1
  tables : c.1.tables = tables

section Runs
variable {fs : FileSystem}

theorem Furnished.step (hshell : fs.Executable shell) {tables : Word × Word}
    {c : Kernel × HaltFaults} (h : Furnished tables c) {e : Event} (he : OpensShell fs c.1 e) :
    Furnished tables ((haltFaultMachine fs).step c e) where
  sheltered := sheltered_step hshell c e h.sheltered he
  mapped := h.mapped.step e
  tables := ((Prod.mk.inj (fixedMapping_step fs c.1 e)).2).trans h.tables

theorem furnished_booted (hshell : fs.Executable shell) (h : Hardware) (junk : Nat → Byte)
    (regs : Regs) : Furnished h.tables (booted fs h junk regs, fun _ => false) where
  sheltered := sheltered_booted hshell h junk regs
  mapped := pagesMapped_booted fs h junk regs
  tables := (Prod.mk.inj (fixedMapping_execute fs (initialised h) (some shell) junk regs)).2

/-- In such a state the kernel's tables confine the process that runs. -/
theorem Furnished.confined {tables : Word × Word} {c : Kernel × HaltFaults} (h : Furnished tables c)
    (hdistinct : frameOf tables.1 ≠ frameOf tables.2) (elsewhere : BitVec 20 → BitVec 10 → Entry) :
    ConfinedInUserCode (c.1.pageTables elsewhere).translate c := by
  refine ⟨h.mapped.kernelReach, fun hfault => ?_⟩
  obtain ⟨p, hprogram, hpage, -, -⟩ := h.sheltered.2 hfault
  exact ⟨p, hprogram, h.mapped.confined (by rwa [h.tables]) hpage⟩

/-- **Confinement.**  In every run in which each opening launches its shell and the kernel stores
for its callers and loads inside the program page only, whatever else is in memory, and whenever
the processor walks the page tables and remembers what it finds: from user mode the process that
runs reaches its own 4MB and at most the VGA page and frame 0, so neither the kernel nor another
process; and the kernel reaches itself and the video pages, and nothing at NULL. -/
theorem confined_run (hshell : fs.Executable shell) (h : Hardware)
    (hdistinct : frameOf h.tables.1 ≠ frameOf h.tables.2) (junk : Nat → Byte) (regs : Regs)
    {memory : Kernel → Address → Word} {cr3 : Address}
    (hmemory : ∀ k : Kernel, k.tables = h.tables → HoldsTables (memory k) cr3 k)
    (ms : List (Moment Event))
    (hkeeps : (kernelMachine fs).Guarded (KeepsToPage fs) (initialised h)
      (.execute (some shell) junk regs :: events ms)) :
    (mmuMachine fs memory cr3).Always (fun c => ConfinedInUserCode (reached memory cr3 c) c.1)
      ((booted fs h junk regs, fun _ => false), Tlb.flushed) ms := by
  have hg : (haltFaultMachine fs).Guarded (fun c e => OpensShell fs c.1 e)
      (booted fs h junk regs, fun _ => false) (events ms) :=
    Machine.withHistory_guarded.mpr (Machine.guarded_and.mp hkeeps.2).1
  have hpages : ∀ c : Kernel × HaltFaults, Furnished h.tables c →
      (Tables.inMemory (memory c.1) cr3).page =
        (c.1.pageTables fun _ _ => Pte.zero.entry).page := by
    intro c hc
    rw [(hmemory c.1 hc.tables).inMemory_eq]
    exact hc.mapped.page_eq _ _
  have hrun := @current_run _ _ (haltFaultMachine fs)
    (fun c => (Tables.inMemory (memory c.1) cr3).page) (fun c e => flushesTlb fs c.1 e)
    (Furnished h.tables) (fun c e => OpensShell fs c.1 e) (fun _ _ hc he => hc.step hshell he)
    (fun c e hc he hflush => by
      have hsame : ((haltFaultMachine fs).step c e).1.mapping = c.1.mapping := mapping_step e hflush
      rw [hpages _ (hc.step hshell he), hpages c hc, pageTables_of_mapping hsame])
    ((booted fs h junk regs, fun _ => false), Tlb.flushed) (furnished_booted hshell h junk regs)
    (Tlb.current_flushed _) ms hg
  refine hrun.mono fun c hc => ?_
  obtain ⟨hfurnished, hcurrent⟩ := hc
  have hreached : reached memory cr3 c =
      (c.1.1.pageTables fun _ _ => Pte.zero.entry).translate := by
    unfold reached
    rw [hcurrent.before_eq, hpages c.1 hfurnished]
    rfl
  rw [hreached]
  exact hfurnished.confined hdistinct _

end Runs

/-- Two terminals run programs, and the processor looks pages up in between. -/
def walkedTerminals : List (Moment Event) :=
  .walk 0x8048 :: .walk 0xB8 :: twoTerminals.flatMap fun e => [.event e, .walk 0x8048]

theorem confined_walkedTerminals :
    (mmuMachine shellImage (fun k => k.tableWords 0x409000 (fun _ => 1) (fun _ => 4) fun _ => 0)
        0x409000).Always
      (fun c => ConfinedInUserCode (reached
        (fun k => k.tableWords 0x409000 (fun _ => 1) (fun _ => 4) fun _ => 0) 0x409000 c) c.1)
      ((booted shellImage zeroHardware noJunk ⟨0x7FFF00, 0x7FFF40⟩, fun _ => false), Tlb.flushed)
      walkedTerminals :=
  confined_run shellImage_executable zeroHardware (by decide) noJunk ⟨0x7FFF00, 0x7FFF40⟩
    (fun k hk => holdsTables_tableWords k _ _ _ (by rw [hk]; decide) (by rw [hk]; decide)
      (by rw [hk]; decide)) walkedTerminals (by decide +kernel)

end LinuxLikeOS
