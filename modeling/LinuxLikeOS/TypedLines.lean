import LinuxLikeOS.KernelRun

/-! # The lines of the terminals

What a terminal holds of the line that is typed in it: whether it is finished, the count
of its keys, and the buffer.  Nothing but `getChar`, Ctrl and L, and a read that takes the
line changes it; output, `execute` and `switch_terminal` do not.
-/
namespace LinuxLikeOS

/-- A terminal's line. -/
@[ext] structure KeyLine where
  enter : Bool
  keyCount : Int
  keyboardBuffer : Nat → Byte

/-- The line of a terminal record. -/
def Terminal.keyLine (v : Terminal) : KeyLine := ⟨v.enter, v.keyCount, v.keyboardBuffer⟩

/-- The lines of all terminals. -/
def Kernel.keyLines (k : Kernel) (t : Fin 3) : KeyLine := (k.multiTerminal t).keyLine

namespace KeyLine

/-- A key. -/
def typed (v : KeyLine) (c : Byte) : KeyLine where
  enter := v.enter || c = 0x0A
  keyCount := if c = 0x08 ∧ 0 < v.keyCount then v.keyCount - 1 else v.keyCount + 1
  keyboardBuffer :=
    if 128 ≤ v.keyCount then v.keyboardBuffer
    else if c = 0x08 ∧ 0 < v.keyCount then
      Function.update v.keyboardBuffer (v.keyCount - 1).toNat 0
    else Function.update v.keyboardBuffer v.keyCount.toNat c

/-- The line is dropped; `enter` stays as it is. -/
def blanked (v : KeyLine) : KeyLine where
  enter := v.enter
  keyCount := 0
  keyboardBuffer := fun i => if i < 128 then 0 else v.keyboardBuffer i

/-- The line is taken by a read. -/
def cleared (v : KeyLine) : KeyLine := { v.blanked with enter := false }

end KeyLine

section KeyLines
variable {k k' : Kernel}

/-- `getChar`. -/
theorem keyLine_keyIn (v : Terminal) (c : Byte) : (v.keyIn c).keyLine = v.keyLine.typed c := by
  have henter : (if c = 0x0A then { v with enter := true } else v).enter =
      (v.enter || c = 0x0A) := by
    by_cases hline : c = 0x0A
    · simp [hline]
    · simp only [hline, if_false, decide_false, Bool.or_false]
  have hbuffer : (if c = 0x0A then { v with enter := true } else v).keyboardBuffer =
      v.keyboardBuffer := by
    split <;> rfl
  simp only [Terminal.keyIn]
  by_cases hroom : v.keyCount < 128
  · have hroom' : ¬128 ≤ v.keyLine.keyCount := not_le.mpr hroom
    rw [if_pos hroom]
    by_cases hback : c = 0x08 ∧ v.keyCount > 0
    · rw [if_pos hback]
      ext1
      · exact henter
      · exact (if_pos hback).symm
      · exact ((if_neg hroom').trans (if_pos hback)).symm
    · rw [if_neg hback]
      ext1
      · exact henter
      · exact (if_neg hback).symm
      · exact ((if_neg hroom').trans (if_neg hback)).symm
  · have hfull : 128 ≤ v.keyLine.keyCount := not_lt.mp hroom
    rw [if_neg hroom]
    by_cases hback : c = 0x08
    · rw [if_pos hback]
      ext1
      · exact henter
      · exact (if_pos ⟨hback, by omega⟩).symm
      · exact hbuffer.trans (if_pos hfull).symm
    · rw [if_neg hback]
      ext1
      · exact henter
      · exact (if_neg (fun h => hback h.1)).symm
      · exact hbuffer.trans (if_pos hfull).symm

theorem keyLines_of_offScreen (h : k'.offScreen = k.offScreen) : k'.keyLines = k.keyLines := by
  have hoff : ∀ k : Kernel, k.offScreen.keyLines = k.keyLines := fun _ => rfl
  rw [← hoff k', h, hoff]

theorem keyLines_setTerminal (k : Kernel) (t : Fin 3) (v : Terminal) :
    (k.setTerminal t v).keyLines = Function.update k.keyLines t v.keyLine := by
  funext i
  by_cases hi : i = t
  · subst hi
    simp [Kernel.keyLines, Kernel.setTerminal]
  · simp [Kernel.keyLines, Kernel.setTerminal, hi]

theorem keyLines_setTerminal_same {t : Fin 3} {v : Terminal} (h : v.keyLine = k.keyLines t) :
    (k.setTerminal t v).keyLines = k.keyLines := by
  rw [keyLines_setTerminal, h, Function.update_eq_self]

theorem keyLines_execute (fs : FileSystem) (command : Option CString) (junk : Nat → Byte)
    (regs : Regs) : (execute fs k command junk regs).1.keyLines = k.keyLines := by
  have hactive : k.activateExecuting.keyLines = k.keyLines := keyLines_setTerminal_same rfl
  rcases execute_cases fs k command junk regs with
    ⟨_, heq⟩ | ⟨_, k', hoff | hoff, heq⟩ | ⟨_, pid, arg, eip, image, _, _, heq⟩ <;> rw [heq]
  · exact keyLines_of_offScreen hoff
  · exact (keyLines_of_offScreen hoff).trans hactive
  · have hlaunch : (k.launched pid arg regs).keyLines = k.activateExecuting.keyLines :=
      keyLines_setTerminal_same (k := k.activateExecuting) rfl
    exact hlaunch.trans hactive

theorem keyLines_switchTerminal (fs : FileSystem) (t : Fin 3) (junk : Nat → Byte) (regs : Regs) :
    (switchTerminal fs k t junk regs).1.keyLines = k.keyLines := by
  rcases switchTerminal_cases fs k t junk regs with
    ⟨_, heq⟩ | ⟨_, _, heq⟩ | ⟨_, _, heq⟩ <;> rw [heq]
  · rfl
  · have hopen : (k.showTerminal t).openVisible.keyLines = (k.showTerminal t).keyLines :=
      keyLines_setTerminal_same rfl
    exact (keyLines_execute fs (some shell) junk regs).trans hopen

/-- Drawing leaves the line of the visible terminal where it is. -/
theorem visible_keyLine_of_offScreen (h : k'.offScreen = k.offScreen) :
    k'.currTerminalVisible = k.currTerminalVisible ∧ k'.visible.keyLine = k.visible.keyLine := by
  have hvis : k'.currTerminalVisible = k.currTerminalVisible :=
    (congrArg Kernel.currTerminalVisible h :)
  refine ⟨hvis, ?_⟩
  have hline := congrFun (keyLines_of_offScreen h) k.currTerminalVisible
  rw [Kernel.visible, hvis]
  exact hline

/-- A key reaches the visible terminal. -/
theorem keyLines_getChar (k : Kernel) (c : Byte) :
    (getChar k c).keyLines =
      Function.update k.keyLines k.currTerminalVisible (k.visible.keyLine.typed c) := by
  rw [getChar, keyLines_setTerminal, keyLine_keyIn]

/-- What is drawn before makes no difference. -/
theorem keyLines_getChar_of_offScreen (h : k'.offScreen = k.offScreen) (c : Byte) :
    (getChar k' c).keyLines =
      Function.update k.keyLines k.currTerminalVisible (k.visible.keyLine.typed c) := by
  obtain ⟨hvis, hline⟩ := visible_keyLine_of_offScreen h
  rw [keyLines_getChar, keyLines_of_offScreen h, hvis, hline]

theorem keyLines_keyPressed (k : Kernel) (c : Byte) :
    (keyPressed k c).keyLines =
      Function.update k.keyLines k.currTerminalVisible (k.visible.keyLine.typed c) :=
  keyLines_getChar_of_offScreen (putc_offScreen k c) c

/-- Ctrl and L drop the line of the visible terminal. -/
theorem keyLines_ctrlLPressed (k : Kernel) :
    (ctrlLPressed k).keyLines =
      Function.update k.keyLines k.currTerminalVisible k.visible.keyLine.blanked := by
  obtain ⟨hvis, hline⟩ := visible_keyLine_of_offScreen (clear_offScreen k)
  have hcursor : ∀ (k : Kernel) (x y : Word),
      ({ k with cursorX := x, cursorY := y } : Kernel).keyLines = k.keyLines := fun _ _ _ => rfl
  unfold ctrlLPressed
  rw [hcursor, openTerminal, keyLines_of_offScreen (updateCursor_offScreen _ _ _),
    keyLines_of_offScreen (clear_offScreen _), keyLines_setTerminal,
    keyLines_of_offScreen (clear_offScreen k), hvis, ← hline]
  rfl

/-- A read takes the line of the visible terminal. -/
theorem keyLines_clearVisibleLine (k : Kernel) :
    (clearVisibleLine k).keyLines =
      Function.update k.keyLines k.currTerminalVisible k.visible.keyLine.cleared := by
  rw [clearVisibleLine, keyLines_setTerminal]
  rfl

/-- Before the first key every line is empty. -/
theorem keyLines_booted (fs : FileSystem) (h : Hardware) (junk : Nat → Byte) (regs : Regs)
    (t : Fin 3) : (booted fs h junk regs).keyLines t = ⟨false, 0, fun _ => 0⟩ := by
  have hclear := congrFun (keyLines_of_offScreen
    (clear_offScreen (initialPaging (intiRtc (powerOn h))))) t
  have hinit : (initialised h).keyLines t =
      ⟨((clear (initialPaging (intiRtc (powerOn h)))).keyLines t).enter, 0, fun i =>
        if i < 128 then 0
        else ((clear (initialPaging (intiRtc (powerOn h)))).keyLines t).keyboardBuffer i⟩ := rfl
  rw [booted, keyLines_execute, hinit, hclear]
  ext1
  · rfl
  · rfl
  · funext i
    exact ite_self 0

end KeyLines

end LinuxLikeOS
