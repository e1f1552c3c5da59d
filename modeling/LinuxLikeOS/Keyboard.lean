import LinuxLikeOS.KernelRun

/-! # The keyboard

`keyboard_handler` turns scan codes into characters, commands and modifiers.  A character
is drawn by `putc` and collected by `getChar`; a tab is drawn as four spaces and collected
as one character.  Whether a backspace does anything is decided by `sum`, a counter that
the driver keeps for all terminals together.

What a code means depends on the modifiers only (`Keyboard.pressed`).  The driver also
moves its own `cursor_x` and `cursor_y` before it calls `putc`, but `putc` ends with
setting them from the screen (`putc_updateCursor`), so what the handler does to the kernel
is a short list of cases: `keyboardHandler_kernel`.

`lookupcodes` has 89 entries and the handler indexes it with codes up to 127; `beyond` is
what the memory behind the table holds.
-/
namespace LinuxLikeOS
open Transition

/-! ## The driver -/

/-- The globals of `keyboard.c`, but for the cursor. -/
structure Keyboard where
  shift : Bool
  cap : Bool
  capReady : Bool
  ctrl : Bool
  alt : Bool
  sum : Int
  deriving DecidableEq

/-- Their initial values. -/
def Keyboard.initial : Keyboard := ⟨false, false, true, false, false, 0⟩

/-- `lookupcodes`. -/
def lookupcodes : List Byte :=
  [0] ++ ascii "e1234567890-=".toList ++ [0x08, 0x09] ++
  ascii "qwertyuiop[]".toList ++ [0x0A, 0x1D] ++
  ascii "asdfghjkl;'`".toList ++ [0x2A] ++ ascii "\\zxcvbnm,./".toList ++ [0x2A] ++
  -- `*`, Alt, the space bar and Caps Lock, then F1 to F10, Num Lock and Scroll Lock
  [0x2A, 0x38, 0x20, 0x3A] ++
  [0x3B, 0x3C, 0x3D, 0x3E, 0x3F, 0x40, 0x41, 0x42, 0x43, 0x44, 0x45, 0x46] ++
  ascii "789-456+1230.".toList ++ [0, 0, 0, 0x57, 0x58]

/-- `lookupcodes[inputcode]`. -/
def lookup (beyond : Nat → Byte) (inputcode : Byte) : Byte :=
  lookupcodes.getD inputcode.toNat (beyond inputcode.toNat)

/-- The cases of `shifthelper`. -/
def shiftCases : List (Byte × Byte) :=
  List.zip (ascii "`1234567890-=[]\\;',./".toList)
    (ascii "~!@#$%^&*()_+\x7b\x7d|:\"<>?".toList)

/-- `shifthelper`. -/
def shifthelper (inputcode : Byte) : Byte := (shiftCases.lookup inputcode).getD inputcode

/-- The codes of the letters. -/
def isLetterCode (inputcode : Byte) : Bool :=
  (0x2C ≤ inputcode ∧ inputcode ≤ 0x32) ∨ (0x1E ≤ inputcode ∧ inputcode ≤ 0x26) ∨
    (0x10 ≤ inputcode ∧ inputcode ≤ 0x19)

namespace Kernel
variable (k : Kernel)

/-- `update_cursor(cursor_x, cursor_y)`. -/
def redrawCursor : Kernel := updateCursor k k.cursorX.toInt k.cursorY.toInt

/-- The cursor goes on by one place; in the last row it goes back to the left. -/
def advanceCursor : Kernel :=
  (if k.cursorY = 24 ∧ k.cursorX = 79 then { k with cursorX := 0 }
    else if k.cursorX = 79 then { k with cursorX := 0, cursorY := k.cursorY + 1 }
    else { k with cursorX := k.cursorX + 1 }).redrawCursor

/-- The cursor goes back by one place. -/
def retractCursor : Kernel := { k with cursorX := k.cursorX - 1 }.redrawCursor

/-- The cursor goes to the next row. -/
def newlineCursor : Kernel :=
  let y := k.cursorY + (k.cursorX / 80 + 1)
  { k with cursorX := 0, cursorY := if y > 24 then 24 else y }.redrawCursor

end Kernel

/-- `"    "`. -/
def fourSpaces : List Byte := [0x20, 0x20, 0x20, 0x20]

/-- `keyboard_handler` with `inputcode` at port 0x60; `junk` and `frame` are for the
`execute` that `switch_terminal` may call. -/
def keyboardHandler (fs : FileSystem) (beyond : Nat → Byte) (kb : Keyboard) (k : Kernel)
    (inputcode : Byte) (junk : Nat → Byte) (frame : Regs) : Keyboard × Kernel :=
  if inputcode < 0x80 then
    if inputcode = 0x1D then ({ kb with ctrl := true }, k)
    else if inputcode = 0x38 then ({ kb with alt := true }, k)
    else if kb.ctrl ∧ inputcode = 0x26 then ({ kb with sum := 0 }, ctrlLPressed k)
    else if inputcode = 0x0F then
      let k' := getChar (puts k fourSpaces) (lookup beyond inputcode)
      ({ kb with sum := kb.sum + 4 }, { k' with cursorX := k'.cursorX + 4 }.redrawCursor)
    else if inputcode = 0x3A ∧ kb.capReady then
      ({ kb with cap := !kb.cap, capReady := false }, k)
    else if inputcode = 0x2A ∨ inputcode = 0x36 then ({ kb with shift := true }, k)
    else if kb.alt ∧ inputcode = 0x3B then (kb, (switchTerminal fs k 0 junk frame).1)
    else if kb.alt ∧ inputcode = 0x3C then (kb, (switchTerminal fs k 1 junk frame).1)
    else if kb.alt ∧ inputcode = 0x3D then (kb, (switchTerminal fs k 2 junk frame).1)
    else if isLetterCode inputcode then
      let c := lookup beyond inputcode
      ({ kb with sum := kb.sum + 1 },
        keyPressed k.advanceCursor (if kb.cap = kb.shift then c else c - 32))
    else
      let c := lookup beyond inputcode
      let shown := if kb.shift then shifthelper c else c
      if c = 0x08 then
        if kb.sum ≠ 0 then ({ kb with sum := kb.sum - 1 }, keyPressed k.retractCursor shown)
        else (kb, k)
      else if c = 0x0A then ({ kb with sum := 0 }, keyPressed k.newlineCursor shown)
      else ({ kb with sum := kb.sum + 1 }, keyPressed k.advanceCursor shown)
  else
    ({ kb with
        shift := kb.shift && !(inputcode = 0xAA ∨ inputcode = 0xB6)
        capReady := kb.capReady || inputcode = 0xBA
        ctrl := kb.ctrl && !(inputcode = 0x9D)
        alt := kb.alt && !(inputcode = 0xB8) }, k)

/-! ## What a code means -/

/-- What a scan code asks for. -/
inductive KeyAction
  /-- a modifier, or a key released -/
  | modifier
  /-- Alt and a function key -/
  | switchTo (t : Fin 3)
  /-- Ctrl and L -/
  | clearScreen
  | tab
  /-- any other key, Enter and Backspace included -/
  | char (c : Byte)
  deriving DecidableEq

/-- What the scan code asks for, with the modifiers as they are. -/
def Keyboard.pressed (kb : Keyboard) (beyond : Nat → Byte) (inputcode : Byte) : KeyAction :=
  if inputcode < 0x80 then
    if inputcode = 0x1D then .modifier
    else if inputcode = 0x38 then .modifier
    else if kb.ctrl ∧ inputcode = 0x26 then .clearScreen
    else if inputcode = 0x0F then .tab
    else if inputcode = 0x3A ∧ kb.capReady then .modifier
    else if inputcode = 0x2A ∨ inputcode = 0x36 then .modifier
    else if kb.alt ∧ inputcode = 0x3B then .switchTo 0
    else if kb.alt ∧ inputcode = 0x3C then .switchTo 1
    else if kb.alt ∧ inputcode = 0x3D then .switchTo 2
    else if isLetterCode inputcode then
      .char (if kb.cap = kb.shift then lookup beyond inputcode else lookup beyond inputcode - 32)
    else .char (if kb.shift then shifthelper (lookup beyond inputcode) else lookup beyond inputcode)
  else .modifier

/-- The kernel after a tab. -/
def tabPressed (k : Kernel) : Kernel :=
  let k' := getChar (puts k fourSpaces) 0x09
  { k' with cursorX := k'.cursorX + 4 }.redrawCursor

/-- What is done to the kernel for it, with `sum` characters counted. -/
def KeyAction.perform (fs : FileSystem) (k : Kernel) (sum : Int) (junk : Nat → Byte)
    (frame : Regs) : KeyAction → Kernel
  | .modifier => k
  | .switchTo t => (switchTerminal fs k t junk frame).1
  | .clearScreen => ctrlLPressed k
  | .tab => tabPressed k
  | .char c => if c = 0x08 ∧ sum = 0 then k else keyPressed k c

/-! ## What the handler does to the kernel -/

section Handler
variable {fs : FileSystem} {beyond : Nat → Byte} {k : Kernel}

/-- `putc` does not look at the cursor, and sets it. -/
theorem putcChar_updateCursor (k : Kernel) (x y : Word) (cursor : BitVec 16) (c : Byte) :
    putcChar { k with cursor := cursor, cursorX := x, cursorY := y } c = putcChar k c := by
  simp only [putcChar, putcCell, drawChar]
  split_ifs <;> rfl

theorem putc_updateCursor (k : Kernel) (x y : Word) (cursor : BitVec 16) (c : Byte) :
    putc { k with cursor := cursor, cursorX := x, cursorY := y } c = putc k c := by
  simp only [putc, putcChar_updateCursor]

theorem keyPressed_updateCursor (k : Kernel) (x y : Word) (cursor : BitVec 16) (c : Byte) :
    keyPressed { k with cursor := cursor, cursorX := x, cursorY := y } c = keyPressed k c := by
  rw [keyPressed, putc_updateCursor, keyPressed]

theorem keyPressed_redrawCursor (k : Kernel) (x y : Word) (c : Byte) :
    keyPressed { k with cursorX := x, cursorY := y }.redrawCursor c = keyPressed k c :=
  keyPressed_updateCursor k (BitVec.ofInt 32 x.toInt) (BitVec.ofInt 32 y.toInt)
    (BitVec.ofInt 16 (y.toInt * 80 + x.toInt)) c

theorem keyPressed_advanceCursor (k : Kernel) (c : Byte) :
    keyPressed k.advanceCursor c = keyPressed k c := by
  unfold Kernel.advanceCursor
  split_ifs
  · exact keyPressed_redrawCursor k 0 k.cursorY c
  · exact keyPressed_redrawCursor k 0 (k.cursorY + 1) c
  · exact keyPressed_redrawCursor k (k.cursorX + 1) k.cursorY c

theorem keyPressed_retractCursor (k : Kernel) (c : Byte) :
    keyPressed k.retractCursor c = keyPressed k c :=
  keyPressed_redrawCursor k (k.cursorX - 1) k.cursorY c

theorem keyPressed_newlineCursor (k : Kernel) (c : Byte) :
    keyPressed k.newlineCursor c = keyPressed k c :=
  keyPressed_redrawCursor k 0
    (if k.cursorY + (k.cursorX / 80 + 1) > 24 then 24 else k.cursorY + (k.cursorX / 80 + 1)) c

/-- What Shift neither changes nor gives. -/
theorem shifthelper_eq_iff {v : Byte}
    (hv : shiftCases.all (fun p => p.1 != v && p.2 != v) = true) {c : Byte} :
    shifthelper c = v ↔ c = v := by
  rw [shifthelper]
  cases hfind : shiftCases.lookup c with
  | none => rfl
  | some upper =>
    obtain ⟨l₁, l₂, hsplit, _⟩ := List.lookup_eq_some_iff.mp hfind
    have hcase := List.all_eq_true.mp hv (c, upper)
      (hsplit ▸ List.mem_append_right l₁ List.mem_cons_self)
    rw [Bool.and_eq_true, bne_iff_ne, bne_iff_ne] at hcase
    exact iff_of_false hcase.2 hcase.1

/-- Only a backspace is a backspace with Shift. -/
theorem shifthelper_eq_backspace {c : Byte} : shifthelper c = 0x08 ↔ c = 0x08 :=
  shifthelper_eq_iff (by decide +kernel)

/-- The letters are in the table, and none of them is a backspace or a new line. -/
theorem letter_lookup (beyond : Nat → Byte) {inputcode : Byte} (h : isLetterCode inputcode = true) :
    (lookup beyond inputcode ≠ 0x08 ∧ lookup beyond inputcode - 32 ≠ 0x08) ∧
      lookup beyond inputcode ≠ 0x0A ∧ lookup beyond inputcode - 32 ≠ 0x0A := by
  have hall : ∀ code : Byte, isLetterCode code = true → (lookupcodes[code.toNat]?).any fun c =>
      (c ≠ 0x08 ∧ c - 32 ≠ 0x08) ∧ c ≠ 0x0A ∧ c - 32 ≠ 0x0A := by
    decide +kernel
  obtain ⟨c, hc, hne⟩ := (Option.any_eq_true _ _).mp (hall inputcode h)
  rw [lookup, List.getD_eq_getElem?_getD, hc]
  exact of_decide_eq_true hne

/-- The branch of the letters. -/
theorem perform_letter {inputcode : Byte} (h : isLetterCode inputcode = true) (sum : Int)
    (upper : Prop) [Decidable upper] (junk : Nat → Byte) (frame : Regs) :
    (KeyAction.char (if upper then lookup beyond inputcode
      else lookup beyond inputcode - 32)).perform fs k sum junk frame =
      keyPressed k.advanceCursor
        (if upper then lookup beyond inputcode else lookup beyond inputcode - 32) := by
  obtain ⟨⟨hlower, hupper⟩, _⟩ := letter_lookup beyond h
  rw [keyPressed_advanceCursor]
  refine if_neg fun hback => ?_
  split at hback
  · exact hlower hback.1
  · exact hupper hback.1

/-- **What the handler does to the kernel** is what the code asks for. -/
theorem keyboardHandler_kernel (fs : FileSystem) (beyond : Nat → Byte) (kb : Keyboard) (k : Kernel)
    (inputcode : Byte) (junk : Nat → Byte) (frame : Regs) :
    (keyboardHandler fs beyond kb k inputcode junk frame).2 =
      (kb.pressed beyond inputcode).perform fs k kb.sum junk frame := by
  unfold keyboardHandler Keyboard.pressed
  simp only [apply_ite Prod.snd, apply_ite (KeyAction.perform fs k kb.sum junk frame)]
  refine if_congr Iff.rfl ?_ rfl
  refine if_congr Iff.rfl rfl (if_congr Iff.rfl rfl (if_congr Iff.rfl rfl ?_))
  by_cases htab : inputcode = 0x0F
  · subst htab
    simp only [if_true]
    rfl
  simp only [if_neg htab]
  refine if_congr Iff.rfl rfl (if_congr Iff.rfl rfl (if_congr Iff.rfl rfl
    (if_congr Iff.rfl rfl (if_congr Iff.rfl rfl ?_))))
  by_cases hletter : isLetterCode inputcode = true
  · rw [if_pos hletter, if_pos hletter]
    exact (perform_letter hletter kb.sum (kb.cap = kb.shift) junk frame).symm
  rw [if_neg hletter, if_neg hletter]
  -- with and without Shift a backspace is a backspace
  have hshown : (if kb.shift then shifthelper (lookup beyond inputcode)
      else lookup beyond inputcode) = 0x08 ↔ lookup beyond inputcode = 0x08 := by
    split
    · exact shifthelper_eq_backspace
    · exact Iff.rfl
  generalize (if kb.shift then shifthelper (lookup beyond inputcode)
    else lookup beyond inputcode) = shown at hshown ⊢
  simp only [KeyAction.perform, hshown, keyPressed_advanceCursor, keyPressed_retractCursor,
    keyPressed_newlineCursor, ite_self]
  by_cases hback : lookup beyond inputcode = 0x08
  · by_cases hsum : kb.sum = 0
    · rw [if_pos hback, if_neg (not_not.mpr hsum), if_pos ⟨hback, hsum⟩]
    · rw [if_pos hback, if_pos hsum, if_neg fun h => hsum h.2]
  · rw [if_neg hback, if_neg fun h => hback h.1]

end Handler

/-! ## The console -/

/-- The keyboard driver and the kernel. -/
structure Console where
  keyboard : Keyboard
  kernel : Kernel

/-- What can happen at the console. -/
inductive ConsoleEvent
  /-- a keyboard interrupt with this code -/
  | scancode (code : Byte) (junk : Nat → Byte) (frame : Regs)
  | pitTick (regs : Regs)
  /-- a call of `read_terminal` -/
  | read (old : Nat → Byte) (nbytes : Word)
  /-- a `read_terminal` that has copied its line looks whether it may go on -/
  | lineServed
  /-- a call of `write_terminal` -/
  | write (buf : Nat → Byte) (nbytes : Word)

/-- The console after an event. -/
def consoleStep (fs : FileSystem) (beyond : Nat → Byte) (c : Console) : ConsoleEvent → Console
  | .scancode code junk frame =>
    let (kb, k) := keyboardHandler fs beyond c.keyboard c.kernel code junk frame
    ⟨kb, k⟩
  | .pitTick regs => { c with kernel := (pitHandler c.kernel regs).1 }
  | .read old nbytes =>
    { c with
      kernel := (CallResult.ofTerminal c.kernel [] (readTerminal c.kernel old nbytes)).kernel }
  | .lineServed => { c with kernel := serveLine c.kernel }
  | .write buf nbytes => { c with kernel := (writeTerminal c.kernel buf nbytes).1 }

/-- The console as a machine. -/
def consoleMachine (fs : FileSystem) (beyond : Nat → Byte) : Machine Console ConsoleEvent :=
  ⟨consoleStep fs beyond⟩

/-- What can happen to the driver and the kernel. -/
inductive SystemEvent
  /-- a keyboard interrupt with this code -/
  | scancode (code : Byte) (junk : Nat → Byte) (frame : Regs)
  /-- any event of the kernel -/
  | kernel (e : Event)

/-- The driver and the kernel after an event. -/
def systemStep (fs : FileSystem) (beyond : Nat → Byte) (c : Console) : SystemEvent → Console
  | .scancode code junk frame => consoleStep fs beyond c (.scancode code junk frame)
  | .kernel e => { c with kernel := kernelStep fs c.kernel e }

/-- The driver and the kernel as a machine. -/
def systemMachine (fs : FileSystem) (beyond : Nat → Byte) : Machine Console SystemEvent :=
  ⟨systemStep fs beyond⟩

/-- The console after booting. -/
def bootedConsole (fs : FileSystem) (h : Hardware) (junk : Nat → Byte) (regs : Regs) : Console :=
  ⟨.initial, booted fs h junk regs⟩

end LinuxLikeOS
