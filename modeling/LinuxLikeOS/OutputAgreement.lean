import LinuxLikeOS.KernelRun
import LinuxLikeOS.ScreenPages

/-! # Foreground and background output

A text should look the same whether `putc` writes it for a terminal that is visible or
`k_putc` for one that is hidden.  The machine here writes it in both ways, byte by byte:
to a kernel in which the terminal is hidden, and to one in which it is visible with the
same contents (`Counterpart`).

Both move the cursor alike, and draw alike; but a backspace in `k_putc` erases its cell on
the VGA page, while its backing page keeps the character.  This cannot be seen, and the
other terminal's screen is not damaged, exactly if the cell is blank on both pages
(`agrees_iff`).
-/
namespace LinuxLikeOS
open Transition

/-! ## The two ways -/

/-- `k_putc` in one kernel and `putc` in another. -/
def outputMachine : Machine (Kernel × Kernel) Byte := ⟨fun c b => (kPutc c.1 b, putc c.2 b)⟩

/-- Terminal `t` writes in the background in `k`, and is visible in `w` with the same
contents. -/
structure Counterpart (t : Fin 3) (k w : Kernel) : Prop where
  executing : k.currTerminalExecuting = t
  hidden : k.currTerminalVisible ≠ t
  visible : w.currTerminalVisible = t
  page : k.page t.succ = w.page 0
  place : k.place t = w.place t

/-- What `t` has written in the background, from `k` on, is on its own page as it would be
on the VGA page, and on no other page. -/
structure AgreesFrom (t : Fin 3) (k : Kernel) (c : Kernel × Kernel) : Prop where
  page : c.1.page t.succ = c.2.page 0
  place : c.1.place t = c.2.place t
  others : ∀ i ≠ t.succ, c.1.page i = k.page i

/-- No backspace is written in the upper left corner. -/
def AwayFromCorner (t : Fin 3) (c : Kernel × Kernel) (b : Byte) : Prop :=
  b = 0x08 → c.1.place t ≠ Place.origin

instance (t : Fin 3) (c : Kernel × Kernel) (b : Byte) : Decidable (AwayFromCorner t c b) :=
  inferInstanceAs (Decidable (_ → _))

/-- A backspace goes back to a cell that is blank on the terminal's page and on the VGA
page. -/
def ErasesBlank (t : Fin 3) (c : Kernel × Kernel) (b : Byte) : Prop :=
  b = 0x08 → (c.1.page t.succ).BlankAt (c.1.place t).back ∧
    (c.1.page 0).BlankAt (c.1.place t).back

instance (t : Fin 3) (c : Kernel × Kernel) (b : Byte) : Decidable (ErasesBlank t c b) :=
  inferInstanceAs (Decidable (_ → _ ∧ _))

/-! ## One byte -/

/-- The invariant: the two agree, and the cursor is on the screen. -/
structure Matched (t : Fin 3) (k : Kernel) (c : Kernel × Kernel) : Prop where
  executing : c.1.currTerminalExecuting = t
  visible : c.2.currTerminalVisible = t
  onScreen : (c.1.place t).OnScreen
  agrees : AgreesFrom t k c

section Bytes
variable {t : Fin 3} {k : Kernel} {c : Kernel × Kernel} {b : Byte}

/-- What a byte that is not a tab does in both kernels. -/
theorem Matched.chars (h : Matched t k c) (hcorner : AwayFromCorner t c b) :
    (kPutcChar c.1 b).place t = (c.1.place t).next b ∧
      (putcChar c.2 b).place t = (c.1.place t).next b ∧
      (kPutcChar c.1 b).page = Function.update c.1.page (drawnPage t.succ 0 b)
        ((c.1.page (drawnPage t.succ 0 b)).draw (c.1.place t) b) ∧
      (putcChar c.2 b).page 0 = (c.2.page 0).draw (c.1.place t) b := by
  obtain ⟨hexec, hvis, hon, hagrees⟩ := h
  subst hexec
  have hplace : c.2.place c.2.currTerminalVisible = c.1.place c.1.currTerminalExecuting := by
    rw [hvis, hagrees.place]
  refine ⟨?_, ?_, page_kPutcChar hon hcorner, ?_⟩
  · rw [place_kPutcChar, Function.update_self]
  · rw [place_putcChar, hplace, hvis, Function.update_self]
  · have hcorner' : b = 0x08 → c.2.place c.2.currTerminalVisible ≠ Place.origin := by
      rw [hplace]
      exact hcorner
    rw [page_putcChar (by rwa [hplace]) hcorner', hplace, Function.update_self]

/-- **One character**: the two agree behind it exactly if it erases a blank cell or none. -/
theorem Matched.agreesFrom_iff (h : Matched t k c) (hcorner : AwayFromCorner t c b) :
    AgreesFrom t k (kPutcChar c.1 b, putcChar c.2 b) ↔ ErasesBlank t c b := by
  obtain ⟨hplace, hplace', hpage, hpage'⟩ := h.chars hcorner
  have hagrees := h.agrees
  by_cases hback : b = 0x08
  · subst hback
    have hon : (c.1.place t).back.OnScreen := (onScreen_back h.onScreen).mpr (hcorner rfl)
    have hdraw : ∀ g : Page, g.draw (c.1.place t) 0x08 = g.store (c.1.place t).back 0x20 :=
      fun _ => if_pos rfl
    have hdrawn : drawnPage t.succ 0 0x08 = 0 := if_pos rfl
    rw [hdrawn, hdraw] at hpage
    rw [hdraw] at hpage'
    have hown : (kPutcChar c.1 0x08).page t.succ = c.1.page t.succ := by
      rw [hpage, Function.update_of_ne (Fin.succ_ne_zero t)]
    have hvga : (kPutcChar c.1 0x08).page 0 = (c.1.page 0).store (c.1.place t).back 0x20 := by
      rw [hpage, Function.update_self]
    constructor
    · intro hafter _
      -- the visible page has been erased, and nothing has changed here
      have heq := hafter.page
      rw [hown, hpage', ← hagrees.page] at heq
      have hsame := hafter.others 0 (Fin.succ_ne_zero t).symm
      rw [hvga, ← hagrees.others 0 (Fin.succ_ne_zero t).symm] at hsame
      exact ⟨(store_eq_self_iff hon).mp heq.symm, (store_eq_self_iff hon).mp hsame⟩
    · intro hblank
      obtain ⟨hblank, hblank'⟩ := hblank rfl
      refine ⟨?_, hplace.trans hplace'.symm, fun i hi => ?_⟩
      · rw [hown, hpage', ← hagrees.page, (store_eq_self_iff hon).mpr hblank]
      · rw [hpage, (store_eq_self_iff hon).mpr hblank', Function.update_eq_self]
        exact hagrees.others i hi
  · have hdrawn : drawnPage t.succ 0 b = t.succ := if_neg hback
    rw [hdrawn] at hpage
    refine iff_of_true ⟨?_, hplace.trans hplace'.symm, fun i hi => ?_⟩ fun h => absurd h hback
    · rw [hpage, Function.update_self, hpage', hagrees.page]
    · rw [hpage, Function.update_of_ne hi]
      exact hagrees.others i hi

/-- A character keeps them matched, unless it erases what is not blank. -/
theorem Matched.char (h : Matched t k c) (hcorner : AwayFromCorner t c b)
    (hblank : ErasesBlank t c b) : Matched t k (kPutcChar c.1 b, putcChar c.2 b) := by
  have hexec : (kPutcChar c.1 b).currTerminalExecuting = c.1.currTerminalExecuting :=
    (congrArg Kernel.currTerminalExecuting (kPutcChar_offScreen c.1 b) :)
  have hvis : (putcChar c.2 b).currTerminalVisible = c.2.currTerminalVisible :=
    (congrArg Kernel.currTerminalVisible (putcChar_offScreen c.2 b) :)
  refine ⟨hexec.trans h.executing, hvis.trans h.visible, ?_, (h.agreesFrom_iff hcorner).mpr hblank⟩
  show ((kPutcChar c.1 b).place t).OnScreen
  rw [(h.chars hcorner).1]
  exact (onScreen_next_iff h.onScreen b).mpr hcorner

/-- A space keeps them matched. -/
theorem Matched.space (h : Matched t k c) :
    Matched t k (kPutcChar c.1 0x20, putcChar c.2 0x20) :=
  h.char (fun hback => absurd hback (by decide)) (fun hback => absurd hback (by decide))

/-- The hardware cursor is on no page. -/
theorem Matched.syncCursor {k' w : Kernel} (h : Matched t k (k', w)) :
    Matched t k (k', syncCursor w) :=
  ⟨h.executing, h.visible, h.onScreen, h.agrees.page, h.agrees.place, h.agrees.others⟩

/-- A tab is four spaces in both. -/
theorem Matched.tab (h : Matched t k c) : Matched t k (outputMachine.step c 0x09) := by
  have htab : ∀ c : Kernel × Kernel, outputMachine.step c 0x09 =
      (kPutcChar (kPutcChar (kPutcChar (kPutcChar c.1 0x20) 0x20) 0x20) 0x20,
        LinuxLikeOS.syncCursor
          (putcChar (putcChar (putcChar (putcChar c.2 0x20) 0x20) 0x20) 0x20)) := fun c => by
    simp only [outputMachine, kPutc, putc, if_true]
  rw [htab]
  exact h.space.space.space.space.syncCursor

theorem step_char (hb : b ≠ 0x09) : outputMachine.step c b = (kPutcChar c.1 b, putcChar c.2 b) := by
  simp only [outputMachine, kPutc, putc, if_neg hb]

/-- **One byte** keeps them matched. -/
theorem matched_step (h : Matched t k c) (hcorner : AwayFromCorner t c b)
    (hblank : ErasesBlank t c b) : Matched t k (outputMachine.step c b) := by
  by_cases htab : b = 0x09
  · subst htab
    exact h.tab
  · rw [step_char htab]
    exact h.char hcorner hblank

theorem erasesBlank_of_agrees (h : Matched t k c) (hcorner : AwayFromCorner t c b)
    (hafter : AgreesFrom t k (outputMachine.step c b)) : ErasesBlank t c b := by
  by_cases htab : b = 0x09
  · subst htab
    exact fun hback => absurd hback (by decide)
  · rw [step_char htab] at hafter
    exact (h.agreesFrom_iff hcorner).mp hafter

/-- `switch_terminal` would make it visible with the same contents. -/
theorem counterpart_showTerminal (hexec : k.currTerminalExecuting = t)
    (hhidden : k.currTerminalVisible ≠ t)
    (hmem : ∀ u, (k.multiTerminal u).terminalVidMem = backingPage u) :
    Counterpart t k (k.showTerminal t) := by
  refine ⟨hexec, hhidden, rfl, ?_, rfl⟩
  have hmem' : k.visible.terminalVidMem = pageBase k.currTerminalVisible.succ :=
    (hmem k.currTerminalVisible).trans (backingPage_eq _)
  have hne : t.succ ≠ k.currTerminalVisible.succ := fun h => hhidden (Fin.succ_inj.mp h).symm
  show k.page t.succ = pageAt (memcpy (memcpy k.video k.visible.terminalVidMem videoBase 4096)
    videoBase (k.multiTerminal t).terminalVidMem 4096) 0
  rw [hmem', hmem t, backingPage_eq, videoBase_eq, pageAt_memcpy, Function.update_self,
    pageAt_memcpy, Function.update_of_ne hne]
  rfl

/-- `write_terminal` of a hidden terminal writes its text so. -/
theorem writeTerminal_hidden {w : Kernel} (hjammer : k.jammer = false) (hhotjam : k.hotjam = false)
    (hhidden : k.currTerminalVisible ≠ k.currTerminalExecuting) (buf : Nat → Byte)
    (nbytes : Word) :
    (writeTerminal k buf nbytes).1 =
      (outputMachine.run (k, w) ((List.range nbytes.toInt.toNat).map buf)).1 := by
  have hrun : ∀ (text : List Byte) (c : Kernel × Kernel),
      (outputMachine.run c text).1 = text.foldl kPutc c.1 := by
    intro text
    induction text with
    | nil => exact fun _ => rfl
    | cons b text ih => exact fun c => ih _
  rw [hrun, writeTerminal, if_neg (by simp [hjammer]), if_neg (by simp [hhotjam])]
  simp only [if_neg hhidden]

theorem Counterpart.matched {w : Kernel} (h : Counterpart t k w) (hon : (k.place t).OnScreen) :
    Matched t k (k, w) :=
  ⟨h.executing, h.visible, hon, h.page, h.place, fun _ _ => rfl⟩

end Bytes

/-- **Foreground and background output.**  A text is written for a hidden terminal, its
cursor on the screen, without a backspace in the upper left corner.  Behind every byte its
page and its cursor are as if it were visible, and the other pages as they were, exactly if
every backspace goes back to a cell that is blank on its page and on the VGA page. -/
theorem agrees_iff {t : Fin 3} {k w : Kernel} (h : Counterpart t k w)
    (hon : (k.place t).OnScreen) (text : List Byte)
    (hcorner : outputMachine.Guarded (AwayFromCorner t) (k, w) text) :
    outputMachine.Always (AgreesFrom t k) (k, w) text ↔
      outputMachine.Guarded (ErasesBlank t) (k, w) text :=
  Machine.always_iff_guarded (fun _ hmatched => hmatched.agrees)
    (fun _ _ hmatched hcorner hblank => matched_step hmatched hcorner hblank)
    (fun _ _ hmatched hcorner hafter => erasesBlank_of_agrees hmatched hcorner hafter)
    (h.matched hon) hcorner

/-- After a tick the second terminal is opened, and after two more the first terminal's shell
runs in the background. -/
def backgroundShell : Kernel :=
  (kernelMachine shellImage).run (booted shellImage zeroHardware noJunk ⟨0x7FFF00, 0x7FFF40⟩)
    [.pitTick ⟨0x7FFD00, 0x7FFD40⟩, .switchTo 1 noJunk ⟨0x7FFC00, 0x7FFC40⟩ ⟨0x7FFB00, 0x7FFB40⟩,
      .pitTick ⟨0x7FDF00, 0x7FDF40⟩, .pitTick ⟨0x7FDF00, 0x7FDF40⟩]

theorem counterpart_backgroundShell :
    Counterpart 0 backgroundShell (backgroundShell.showTerminal 0) :=
  counterpart_showTerminal (by decide +kernel) (by decide +kernel) (by decide +kernel)

theorem agrees_backgroundShell :
    outputMachine.Always (AgreesFrom 0 backgroundShell)
        (backgroundShell, backgroundShell.showTerminal 0) (ascii "ls\n".toList) ↔
      outputMachine.Guarded (ErasesBlank 0) (backgroundShell, backgroundShell.showTerminal 0)
        (ascii "ls\n".toList) :=
  agrees_iff counterpart_backgroundShell (by decide +kernel) (ascii "ls\n".toList)
    (by decide +kernel)

/-- `A` and a backspace: the `A` stays on the hidden terminal's page. -/
theorem agrees_erasedInBackground :
    ¬∀ (t : Fin 3) (k w : Kernel), Counterpart t k w → (k.place t).OnScreen →
      ∀ text : List Byte, outputMachine.Guarded (AwayFromCorner t) (k, w) text →
        outputMachine.Always (AgreesFrom t k) (k, w) text := by
  intro hall
  have hpage := (hall 0 backgroundShell (backgroundShell.showTerminal 0)
    counterpart_backgroundShell (by decide +kernel) [0x41, 0x08] (by decide +kernel)).last.page
  exact absurd (congrFun hpage 0) (by decide +kernel)

end LinuxLikeOS
