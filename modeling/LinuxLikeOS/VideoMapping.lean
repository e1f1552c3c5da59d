import LinuxLikeOS.Frames

/-! # Where the `vidmap` pages lead

`page_table_video` maps one user page for each terminal, at 132MB and up.  A present
entry should lead to video memory: to the VGA page, or to the page its terminal draws
on while it is hidden (`VideoMapped`).

`vidmap` makes the entry of the executing terminal present and sets the frame of the
entry of the visible one.  They are one entry when the executing terminal is visible.
When it is not, its entry keeps the frame it had: the VGA page if an earlier `vidmap`
put it there, and otherwise frame 0.  `videoMapped_iff` says that this is all that can
go wrong, over all runs.
-/
namespace LinuxLikeOS
open Transition

/-! ## Frames and translation -/

/-- The frames of terminal `t`'s video memory: the VGA page and its backing page. -/
def IsVideoFrame (t : Fin 3) (frame : BitVec 20) : Prop :=
  frame = 0xB8 ∨ frame = 0xB9 + BitVec.ofNat 20 t

theorem zero_not_videoFrame (t : Fin 3) : ¬IsVideoFrame t 0 := by
  unfold IsVideoFrame
  revert t
  decide

/-- Every present entry of `page_table_video` is a terminal's and leads to its video
memory. -/
def VideoMapped (k : Kernel) : Prop :=
  ∀ i, (k.pageTableVideo i).present = true →
    ∃ t, i = videoEntry t ∧ IsVideoFrame t (k.pageTableVideo i).pba

/-- The directory index of an address. -/
def directoryIndex (a : Word) : Fin 1024 :=
  ⟨(a.extractLsb' 22 10).toNat, (a.extractLsb' 22 10).isLt⟩

/-- The table index of an address. -/
def tableIndex (a : Word) : Fin 1024 := ⟨(a.extractLsb' 12 10).toNat, (a.extractLsb' 12 10).isLt⟩

/-- The frame a user program reaches at address `a`, if the page directory leads there
through `page_table_video`. -/
def translateVideo (k : Kernel) (a : Word) : Option (BitVec 20) :=
  let pde := k.pageDirectory (directoryIndex a)
  let pte := k.pageTableVideo (tableIndex a)
  if pde.present ∧ pde.user ∧ pde.bigPage = false ∧ pde.pta = k.tables.2.extractLsb' 12 20 ∧
      pte.present ∧ pte.user then some pte.pba
  else none

/-- The address that a successful `vidmap` stores is mapped to video memory of the
executing terminal. -/
def VidmapMapped (k : Kernel) : Event → Prop
  | .vidmap screenStart => (Syscall.vidmap k screenStart).ret = some 0 →
      ∃ a frame, (Syscall.vidmap k screenStart).stored = wordBytes a ∧
        translateVideo (Syscall.vidmap k screenStart).kernel a = some frame ∧
        IsVideoFrame k.currTerminalExecuting frame
  | _ => True

/-- An accepted `vidmap` is called from the visible terminal, or from one whose entry
leads to the VGA page already. -/
def MapsVisible (k : Kernel) : Event → Prop
  | .vidmap screenStart => VidmapAccepts k screenStart →
      k.currTerminalVisible = k.currTerminalExecuting ∨
        (k.pageTableVideo (videoEntry k.currTerminalExecuting)).pba = 0xB8
  | _ => True

/-! ## The table over runs -/

/-- Present entries are the terminals' and lead to the VGA page, absent ones have that
frame or none, and the directory leads to the table. -/
structure VgaOnly (s : Shared) : Prop where
  mapped : ∀ i, (s.videoTable i).present = true →
    (∃ t, i = videoEntry t) ∧ (s.videoTable i).pba = 0xB8
  frame : ∀ i, (s.videoTable i).pba = 0 ∨ (s.videoTable i).pba = 0xB8
  directory : s.videoPde = ⟨true, true, true, false, s.tables.2.extractLsb' 12 20⟩

theorem VgaOnly.of_shared {k k' : Kernel} (h : VgaOnly k.shared) (heq : k'.shared = k.shared) :
    VgaOnly k'.shared := by
  rwa [heq]

theorem VgaOnly.videoMapped {k : Kernel} (h : VgaOnly k.shared) : VideoMapped k := by
  intro i hi
  obtain ⟨⟨t, ht⟩, hframe⟩ := h.mapped i hi
  exact ⟨t, ht, Or.inl hframe⟩

theorem vgaOnly_booted (fs : FileSystem) (h : Hardware) (junk : Nat → Byte) (regs : Regs) :
    VgaOnly (booted fs h junk regs).shared := by
  rw [booted, shared_execute]
  have htable : (initialised h).shared.videoTable = fun _ => Pte.zero := rfl
  refine ⟨?_, ?_, rfl⟩
  · intro i hi
    rw [htable] at hi
    cases hi
  · intro i
    rw [htable]
    exact Or.inl rfl

section Vidmap
variable {table : Fin 1024 → Pte} (e v : Fin 3) (i : Fin 1024)

theorem mapVideo_present :
    (mapVideo table e v i).present = if i = videoEntry e then true else (table i).present := by
  unfold mapVideo
  by_cases hv : i = videoEntry v
  · subst hv
    rw [Function.update_self]
    by_cases he : videoEntry v = videoEntry e
    · simp [he]
    · simp [he]
  · by_cases he : i = videoEntry e
    · subst he; simp [hv]
    · simp [hv, he]

theorem mapVideo_user :
    (mapVideo table e v i).user = if i = videoEntry e then true else (table i).user := by
  unfold mapVideo
  by_cases hv : i = videoEntry v
  · subst hv
    rw [Function.update_self]
    by_cases he : videoEntry v = videoEntry e
    · simp [he]
    · simp [he]
  · by_cases he : i = videoEntry e
    · subst he; simp [hv]
    · simp [hv, he]

theorem mapVideo_pba :
    (mapVideo table e v i).pba = if i = videoEntry v then 0xB8 else (table i).pba := by
  unfold mapVideo
  by_cases hv : i = videoEntry v
  · subst hv
    rw [Function.update_self, if_pos rfl]
  · by_cases he : i = videoEntry e
    · subst he; simp [hv]
    · simp [hv, he]

end Vidmap

section Steps
variable {fs : FileSystem} {k : Kernel} {e : Event}

theorem videoEntry_inj {s t : Fin 3} : videoEntry s = videoEntry t ↔ s = t := by
  revert s t
  decide

/-- The frame of the executing terminal's entry after an accepted `vidmap`. -/
theorem mapVideo_executing_pba (k : Kernel) :
    (mapVideo k.pageTableVideo k.currTerminalExecuting k.currTerminalVisible
      (videoEntry k.currTerminalExecuting)).pba = 0xB8 ↔
    k.currTerminalVisible = k.currTerminalExecuting ∨
      (k.pageTableVideo (videoEntry k.currTerminalExecuting)).pba = 0xB8 := by
  simp only [mapVideo_pba, videoEntry_inj]
  by_cases heq : k.currTerminalExecuting = k.currTerminalVisible
  · simp [heq]
  · simp [heq, Ne.symm heq]

theorem vgaOnly_vidmap (h : VgaOnly k.shared) {screenStart : Word}
    (hg : MapsVisible k (.vidmap screenStart)) :
    VgaOnly (kernelStep fs k (.vidmap screenStart)).shared := by
  by_cases haccepts : VidmapAccepts k screenStart
  · have hpba := (mapVideo_executing_pba k).mpr (hg haccepts)
    have htable : (kernelStep fs k (.vidmap screenStart)).shared.videoTable =
        mapVideo k.pageTableVideo k.currTerminalExecuting k.currTerminalVisible := by
      simp only [kernelStep, vidmap_accepted haccepts]
      rfl
    refine ⟨?_, ?_, ?_⟩
    · intro i hi
      rw [htable] at hi ⊢
      rw [mapVideo_present] at hi
      by_cases he : i = videoEntry k.currTerminalExecuting
      · subst he
        exact ⟨⟨_, rfl⟩, hpba⟩
      · rw [if_neg he] at hi
        obtain ⟨ht, hframe⟩ := h.mapped i hi
        refine ⟨ht, ?_⟩
        rw [mapVideo_pba]
        split
        · rfl
        · exact hframe
    · intro i
      rw [htable, mapVideo_pba]
      split
      · exact Or.inr rfl
      · exact h.frame i
    · simp only [kernelStep, vidmap_accepted haccepts]
      exact h.directory
  · simp only [kernelStep, vidmap_refused_kernel haccepts]
    exact h

theorem vgaOnly_step (h : VgaOnly k.shared) (hg : MapsVisible k e) :
    VgaOnly (kernelStep fs k e).shared := by
  cases e with
  | vidmap screenStart => exact vgaOnly_vidmap h hg
  | halt status junk junkFd regs =>
    rw [kernelStep, shared_halt]
    -- the executing terminal's entry becomes absent, and the others stay
    refine ⟨?_, ?_, h.directory⟩
    · intro i hi
      by_cases he : i = videoEntry k.currTerminalExecuting
      · subst he
        simp [Kernel.shared, Kernel.halting, Kernel.unmapVideo] at hi
      · simp only [Kernel.shared, Kernel.halting, Kernel.unmapVideo,
          Function.update_of_ne he] at hi ⊢
        exact h.mapped i hi
    · intro i
      by_cases he : i = videoEntry k.currTerminalExecuting
      · subst he
        simpa [Kernel.shared, Kernel.halting, Kernel.unmapVideo] using h.frame _
      · simp only [Kernel.shared, Kernel.halting, Kernel.unmapVideo, Function.update_of_ne he]
        exact h.frame i
  | pitTick regs => exact h
  | switchTo t junk entry frame => rw [kernelStep, shared_switchTerminal]; exact h
  | execute command junk regs => rw [kernelStep, shared_execute]; exact h
  | raiseException => exact ⟨h.mapped, h.frame, h.directory⟩
  | key | ctrlL | read | lineServed | write | «open» | close | getargs =>
    exact h.of_shared (shared_of_core (core_call rfl (by simp) (by simp)))

/-- If the present entries lead to video memory after a `vidmap`, it met the
condition. -/
theorem mapsVisible_of_videoMapped (h : VgaOnly k.shared)
    (hmapped : VideoMapped (kernelStep fs k e)) : MapsVisible k e := by
  cases e with
  | vidmap screenStart =>
    intro haccepts
    rw [← mapVideo_executing_pba k]
    simp only [VideoMapped, kernelStep, vidmap_accepted haccepts] at hmapped
    obtain ⟨t, -, hframe⟩ := hmapped (videoEntry k.currTerminalExecuting) (by
      rw [mapVideo_present, if_pos rfl])
    have hkept : (mapVideo k.pageTableVideo k.currTerminalExecuting k.currTerminalVisible
        (videoEntry k.currTerminalExecuting)).pba = 0 ∨
        (mapVideo k.pageTableVideo k.currTerminalExecuting k.currTerminalVisible
          (videoEntry k.currTerminalExecuting)).pba = 0xB8 := by
      rw [mapVideo_pba]
      split
      · exact Or.inr rfl
      · exact h.frame _
    -- the entry is present now, and frame 0 is not video memory
    rcases hkept with hzero | hvga
    · rw [hzero] at hframe
      exact absurd hframe (zero_not_videoFrame t)
    · exact hvga
  | _ => exact trivial

/-- Under the condition, the address that `vidmap` hands out is mapped. -/
theorem vidmapMapped_of_mapsVisible (h : VgaOnly k.shared) (hg : MapsVisible k e) :
    VidmapMapped k e := by
  cases e with
  | vidmap screenStart =>
    intro hret
    by_cases haccepts : VidmapAccepts k screenStart
    · have hpba := (mapVideo_executing_pba k).mpr (hg haccepts)
      have hdirectory : ∀ t, directoryIndex (vidmapAddress t) = videoPde := by decide
      have htable : ∀ t, tableIndex (vidmapAddress t) = videoEntry t := by decide
      have hpde : k.pageDirectory videoPde =
          ⟨true, true, true, false, k.tables.2.extractLsb' 12 20⟩ := h.directory
      rw [vidmap_accepted haccepts]
      refine ⟨_, 0xB8, rfl, ?_, Or.inl rfl⟩
      simp only [translateVideo, hdirectory, htable, hpde, mapVideo_present, mapVideo_user, hpba,
        if_true, and_self]
    · rw [vidmap_refused haccepts] at hret
      dsimp only at hret
      split at hret <;> cases hret
  | _ => exact trivial

end Steps

/-- **Video mappings.**  From boot, over any run: every present entry of
`page_table_video` leads to its terminal's video memory in every state, and every
address a successful `vidmap` hands out is mapped there, exactly if every accepted
`vidmap` is called from the visible terminal or from one whose entry leads to the VGA
page already. -/
theorem videoMapped_iff (fs : FileSystem) (h : Hardware) (junk : Nat → Byte) (regs : Regs)
    (es : List Event) :
    ((kernelMachine fs).Always VideoMapped (booted fs h junk regs) es ∧
      (kernelMachine fs).Guarded VidmapMapped (booted fs h junk regs) es) ↔
    (kernelMachine fs).Guarded MapsVisible (booted fs h junk regs) es := by
  have hmaps : ∀ k : Kernel, VgaOnly k.shared → VideoMapped k := fun _ hs => hs.videoMapped
  have hexact := Machine.always_iff_guarded (M := kernelMachine fs) (E := fun _ _ => True)
    (P := VideoMapped) (G := MapsVisible) hmaps (fun _ _ hs _ hg => vgaOnly_step hs hg)
    (fun _ _ hs _ hmapped => mapsVisible_of_videoMapped hs hmapped)
    (vgaOnly_booted fs h junk regs) (Machine.guarded_true (booted fs h junk regs) es)
  constructor
  · rintro ⟨halways, _⟩
    exact hexact.mp halways
  · intro hg
    exact ⟨hexact.mpr hg, Machine.guarded_of_step (fun _ _ hs hg => vgaOnly_step hs hg)
      (fun _ _ hs hg => vidmapMapped_of_mapsVisible hs hg) (vgaOnly_booted fs h junk regs) hg⟩

/-- After a tick the second terminal is opened, two more ticks go back to the first, and its
program calls `vidmap` in the background. -/
def vidmapInBackground : List Event :=
  [.pitTick ⟨0x7FFD00, 0x7FFD40⟩,
    .switchTo 1 noJunk ⟨0x7FFE00, 0x7FFE40⟩ ⟨0x7FFD00, 0x7FFD40⟩,
    .pitTick ⟨0x7FDF00, 0x7FDF40⟩, .pitTick ⟨0x7FDF00, 0x7FDF40⟩, .vidmap 0x8100000]

/-- Its page is present and leads to frame 0. -/
theorem videoMapped_vidmapInBackground :
    ¬∀ (fs : FileSystem) (h : Hardware) (junk : Nat → Byte) (regs : Regs) (es : List Event),
      (kernelMachine fs).Always VideoMapped (booted fs h junk regs) es ∧
        (kernelMachine fs).Guarded VidmapMapped (booted fs h junk regs) es := by
  intro hall
  have hmapped := (hall shellImage zeroHardware noJunk ⟨0x7FFF00, 0x7FFF40⟩
    vidmapInBackground).1.last
  obtain ⟨t, -, hframe⟩ := hmapped (videoEntry 0) (by decide +kernel)
  have hzero : (((kernelMachine shellImage).run
      (booted shellImage zeroHardware noJunk ⟨0x7FFF00, 0x7FFF40⟩)
      vidmapInBackground).pageTableVideo (videoEntry 0)).pba = 0 := by
    decide +kernel
  rw [hzero] at hframe
  exact zero_not_videoFrame t hframe

end LinuxLikeOS
